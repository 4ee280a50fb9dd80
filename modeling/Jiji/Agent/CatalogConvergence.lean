import Jiji.Agent.CatalogDelivery

/-!
# Delivery order of catalog records

The active and healthy records of a view may depend on the order in which a set
of verified records was delivered.  This module says exactly when they do not.

A serving record is tenable when it stands after some delivery: every later
record of its deployment can then be kept out by the fence of its replica at the
time it arrives.  The history of a delivery, the records that ever stood, names
the keepers; conversely the keepers arranged from early to late give a delivery.
The reported records do not depend on the order exactly when every tenable
record is matched by an assured record of its replica.
-/

namespace Jiji
namespace Agent
namespace CatalogView

open Replication

/-- Records that can all stand at some time: none of them is later than a
tombstone of its own deployment and owner epoch, unless it is one itself. -/
def Compatible (recordId : CatalogRecord → String) (chosen : List CatalogRecord) : Prop :=
  ∀ tombstone ∈ chosen, ∀ other ∈ chosen,
    tombstone.deploymentId = other.deploymentId →
    tombstone.ownerEpoch = other.ownerEpoch →
    tombstone.state = .tombstoned → other.state ≠ .tombstoned →
      other.order recordId < tombstone.order recordId

/-- A keeper of another deployment fences a later record of the deployment. -/
structure KeepsOut (record keeper later : CatalogRecord) : Prop where
  deployment : keeper.deploymentId ≠ record.deploymentId
  replica : keeper.replicaId = later.replicaId
  epoch : later.ownerEpoch < keeper.ownerEpoch

/-- A serving record that stands after some delivery: compatible records keep out
every later record of its deployment. -/
structure Tenable
    (recordId : CatalogRecord → String)
    (records : List CatalogRecord)
    (record : CatalogRecord) : Prop where
  member : record ∈ records
  serving : record.Serving
  keepers : ∃ chosen ⊆ records, Compatible recordId chosen ∧
    ∀ later ∈ records, later.deploymentId = record.deploymentId →
      record.order recordId < later.order recordId →
        ∃ keeper ∈ chosen, KeepsOut record keeper later

/-- Every tenable record is matched by an assured record of its replica. -/
def Uncontested (recordId : CatalogRecord → String) (records : List CatalogRecord) : Prop :=
  ∀ record, Tenable recordId records record →
    ∃ assured, Assured recordId records assured ∧
      assured.replicaId = record.replicaId ∧ record.recordOrder ≤ assured.recordOrder

variable {recordId : CatalogRecord → String} {scope : MembershipScope}
variable {membership : MembershipView} {records : List CatalogRecord}
variable {view : CatalogView} {slots next : Slots String CatalogRecord}
variable {record other : CatalogRecord} {outcome : Outcome}

section History

variable {past : List CatalogRecord}

/-- The records that ever stood in a register file, with what the order of their
arrival implies. -/
structure History
    (recordId : CatalogRecord → String)
    (records past : List CatalogRecord)
    (slots : Slots String CatalogRecord) : Prop where
  drawn : past ⊆ records
  standing : ∀ deployment current, slots deployment = some current →
    current ∈ past ∧ current.deploymentId = deployment
  reached : ∀ earlier ∈ past, ∃ current,
    slots earlier.deploymentId = some current ∧
      earlier.order recordId ≤ current.order recordId
  buried : ∀ tombstone ∈ past, tombstone.state = .tombstoned →
    ∀ current, slots tombstone.deploymentId = some current →
      current.ownerEpoch = tombstone.ownerEpoch → current.state = .tombstoned
  compatible : Compatible recordId past

/-- An offered record was taken over by its deployment, met a tombstone of its
epoch there, or was fenced by a record that stood. -/
def Answered
    (recordId : CatalogRecord → String)
    (past : List CatalogRecord)
    (slots : Slots String CatalogRecord)
    (record : CatalogRecord) : Prop :=
  (∃ current, slots record.deploymentId = some current ∧
      (record.order recordId ≤ current.order recordId ∨
        current.state = .tombstoned ∧ current.ownerEpoch = record.ownerEpoch)) ∨
    ∃ keeper ∈ past, keeper.replicaId = record.replicaId ∧
      record.ownerEpoch < keeper.ownerEpoch

theorem history_empty : History recordId records [] Slots.empty where
  drawn := List.nil_subset _
  standing := by simp [Slots.empty]
  reached := by simp
  buried := by simp
  compatible := by simp [Compatible]

/-- A stored record that follows a tombstone of its deployment and epoch is a
tombstone. -/
theorem History.tombstoned_of_applied
    (history : History recordId records past slots)
    (outranks : ∀ current, slots record.deploymentId = some current →
      current.order recordId < record.order recordId)
    (lawful : ¬Resurrects slots record)
    (member : other ∈ past)
    (tombstoned : other.state = .tombstoned)
    (deployment : other.deploymentId = record.deploymentId)
    (epoch : other.ownerEpoch = record.ownerEpoch) :
    record.state = .tombstoned := by
  obtain ⟨current, stands, bound⟩ := history.reached other member
  have here : slots record.deploymentId = some current := deployment ▸ stands
  have above := epoch_le_of_order_le bound
  have below := epoch_le_of_order_le (outranks current here).le
  have currentEpoch : current.ownerEpoch = other.ownerEpoch := by omega
  by_contra revived
  exact lawful ⟨current, here, history.buried other member tombstoned current stands
    currentEpoch, revived, by omega⟩

/-- Storing a record adds it to the history. -/
theorem History.applied
    (history : History recordId records past slots)
    (member : record ∈ records)
    (outranks : ∀ current, slots record.deploymentId = some current →
      current.order recordId < record.order recordId)
    (lawful : ¬Resurrects slots record) :
    History recordId records (record :: past)
      (Function.update slots record.deploymentId (some record)) where
  drawn := List.cons_subset.mpr ⟨member, history.drawn⟩
  standing := by
    intro deployment current stands
    by_cases here : deployment = record.deploymentId
    · rw [here, Function.update_self] at stands
      obtain rfl := Option.some.inj stands
      exact ⟨List.mem_cons_self, here.symm⟩
    · rw [Function.update_of_ne here] at stands
      obtain ⟨earlier, keyed⟩ := history.standing deployment current stands
      exact ⟨List.mem_cons_of_mem _ earlier, keyed⟩
  reached := by
    rintro earlier (_ | ⟨_, earlierMember⟩)
    · exact ⟨record, Function.update_self _ _ _, le_rfl⟩
    · obtain ⟨current, stands, bound⟩ := history.reached earlier earlierMember
      by_cases here : earlier.deploymentId = record.deploymentId
      · rw [here] at stands ⊢
        exact ⟨record, Function.update_self _ _ _, bound.trans (outranks current stands).le⟩
      · exact ⟨current, (Function.update_of_ne here _ _).trans stands, bound⟩
  buried := by
    rintro tombstone (_ | ⟨_, tombstoneMember⟩) tombstoned current stands epoch
    · rw [Function.update_self] at stands
      exact Option.some.inj stands ▸ tombstoned
    · by_cases here : tombstone.deploymentId = record.deploymentId
      · rw [here, Function.update_self] at stands
        obtain rfl := Option.some.inj stands
        exact history.tombstoned_of_applied outranks lawful tombstoneMember tombstoned here
          epoch.symm
      · rw [Function.update_of_ne here] at stands
        exact history.buried tombstone tombstoneMember tombstoned current stands epoch
  compatible := by
    rintro tombstone (_ | ⟨_, tombstoneMember⟩) other (_ | ⟨_, otherMember⟩)
      deployment epoch tombstoned standing
    · exact absurd tombstoned standing
    · obtain ⟨current, stands, bound⟩ := history.reached other otherMember
      exact bound.trans_lt (outranks current (deployment ▸ stands))
    · exact absurd (history.tombstoned_of_applied outranks lawful tombstoneMember tombstoned
        deployment epoch) standing
    · exact history.compatible tombstone tombstoneMember other otherMember deployment epoch
        tombstoned standing

/-- Storing a record leaves every answered record answered. -/
theorem Answered.applied
    (answered : Answered recordId past slots other)
    (outranks : ∀ current, slots record.deploymentId = some current →
      current.order recordId < record.order recordId)
    (lawful : ¬Resurrects slots record) :
    Answered recordId (record :: past)
      (Function.update slots record.deploymentId (some record)) other := by
  rcases answered with ⟨current, stands, taken⟩ | ⟨keeper, keeperMember, fences⟩
  · by_cases here : other.deploymentId = record.deploymentId
    · rw [here] at stands
      refine Or.inl ⟨record, by rw [here]; exact Function.update_self _ _ _, ?_⟩
      have rise := outranks current stands
      rcases taken with bound | ⟨tombstoned, epoch⟩
      · exact Or.inl (bound.trans rise.le)
      · rcases (epoch_le_of_order_le rise.le).lt_or_eq with higher | same
        · exact Or.inl (order_lt_of_epoch_lt recordId (epoch ▸ higher)).le
        · refine Or.inr ⟨?_, same.symm.trans epoch⟩
          by_contra revived
          exact lawful ⟨current, stands, tombstoned, revived, same.symm⟩
    · exact Or.inl ⟨current, (Function.update_of_ne here _ _).trans stands, taken⟩
  · exact Or.inr ⟨keeper, List.mem_cons_of_mem _ keeperMember, fences⟩

/-- A history of the records of a view in which every record it took in is
answered. -/
structure Chronicle
    (recordId : CatalogRecord → String)
    (records past : List CatalogRecord)
    (view : CatalogView) : Prop where
  history : History recordId records past view.slots
  answered : ∀ record ∈ records, recordId record ∈ view.recordIds →
    Answered recordId past view.slots record

/-- A step extends the history and keeps every answered record answered. -/
theorem History.step
    (history : History recordId records past slots)
    (member : record ∈ records)
    (step : (rules recordId fun _ => True).Step slots record outcome next) :
    ∃ longer, History recordId records longer next ∧
      ∀ other, Answered recordId past slots other → Answered recordId longer next other := by
  cases step with
  | superseded => exact ⟨past, history, fun _ => id⟩
  | applied _ outranks lawful =>
      exact ⟨record :: past, history.applied member outranks lawful,
        fun _ answered => answered.applied outranks lawful⟩

/-- A refused record is answered. -/
theorem History.answered_of_refused
    (history : History recordId records past slots)
    (refused : Fenced slots record ∨ Stale slots record ∨ Resurrects slots record) :
    Answered recordId past slots record := by
  rcases refused with ⟨deployment, current, stands, replica, exceeds⟩ |
    ⟨current, stands, exceeds⟩ | ⟨current, stands, tombstoned, _, epoch⟩
  · exact Or.inr ⟨current, (history.standing _ _ stands).1, replica, exceeds⟩
  · exact Or.inl ⟨current, stands, Or.inl (order_lt_of_epoch_lt recordId exceeds).le⟩
  · exact Or.inl ⟨current, stands, Or.inr ⟨tombstoned, epoch.symm⟩⟩

/-- One offer extends the chronicle and answers the offered record. -/
theorem Chronicle.offer
    (chronicle : Chronicle recordId records past view)
    (injective : Set.InjOn recordId {record | record ∈ records})
    (member : record ∈ records)
    (verified : record.verify provenance scope membership = .ok ()) :
    let next := RecordView.offer (apply recordId provenance scope membership) view record
    ∃ longer, Chronicle recordId records longer next ∧
      Answered recordId longer next.slots record ∧
      ∀ other, Answered recordId past view.slots other →
        Answered recordId longer next.slots other := by
  intro next
  rcases offer_cases recordId verified view with
    ⟨seen, same⟩ | ⟨same, refused⟩ | ⟨ids, outcome, step⟩
  · have next_eq : next = view := same
    rw [next_eq]
    exact ⟨past, chronicle, chronicle.answered record member seen, fun _ => id⟩
  · have next_eq : next = view := same
    rw [next_eq]
    exact ⟨past, chronicle, chronicle.history.answered_of_refused refused, fun _ => id⟩
  · obtain ⟨longer, history, keeps⟩ := chronicle.history.step member step
    obtain ⟨current, stands, bound⟩ := step.stands
    have answered : Answered recordId longer next.slots record :=
      Or.inl ⟨current, stands, Or.inl bound⟩
    refine ⟨longer, ⟨history, ?_⟩, answered, keeps⟩
    intro other otherMember seen
    rw [show next.recordIds = _ from ids, Std.ExtTreeSet.mem_insert,
      Std.LawfulEqCmp.compare_eq_iff_eq] at seen
    rcases seen with same | seen
    · exact injective member otherMember same ▸ answered
    · exact keeps other (chronicle.answered other otherMember seen)

/-- A delivery extends the chronicle and answers every record it offers. -/
theorem Chronicle.deliver
    (chronicle : Chronicle recordId records past view)
    (injective : Set.InjOn recordId {record | record ∈ records})
    (members : ∀ entry ∈ log, entry.1 ∈ records)
    (verified : ∀ entry ∈ log, entry.1.verify entry.2 scope membership = .ok ()) :
    let final := deliver recordId scope membership view log
    ∃ longer, History recordId records longer final.slots ∧
      ∀ other, Answered recordId past view.slots other ∨ other ∈ log.map Prod.fst →
        Answered recordId longer final.slots other := by
  induction log generalizing past view with
  | nil =>
      refine ⟨past, chronicle.history, fun other answered => ?_⟩
      exact answered.resolve_right (by simp)
  | cons entry log inductionHypothesis =>
      rw [List.forall_mem_cons] at members verified
      obtain ⟨longer, nextChronicle, answers, keeps⟩ :=
        chronicle.offer injective members.1 verified.1
      obtain ⟨longest, history, laterAnswers⟩ :=
        inductionHypothesis nextChronicle members.2 verified.2
      refine ⟨longest, history, fun other answered => laterAnswers other ?_⟩
      rw [List.map_cons, List.mem_cons] at answered
      rcases answered with earlier | rfl | later
      · exact Or.inl (keeps other earlier)
      · exact Or.inl answers
      · exact Or.inr later

/-- A serving record that stands after a delivery is tenable. -/
theorem Delivers.tenable
    (delivers : Delivers scope membership records log)
    (injective : Set.InjOn recordId {record | record ∈ records})
    (stands : (deliver recordId scope membership .empty log).slots record.deploymentId =
      some record)
    (serving : record.Serving) :
    Tenable recordId records record := by
  have chronicle : Chronicle recordId records [] .empty :=
    ⟨by rw [RecordView.slots_empty]; exact history_empty, by simp⟩
  have members : ∀ entry ∈ log, entry.1 ∈ records := fun entry delivered =>
    (delivers.members entry.1).mp (List.mem_map_of_mem delivered)
  obtain ⟨past, history, answers⟩ := chronicle.deliver injective members delivers.verified
  have member : record ∈ records := history.drawn (history.standing _ _ stands).1
  refine ⟨member, serving, past, history.drawn, history.compatible, ?_⟩
  intro later laterMember deployment order
  rcases answers later (Or.inr ((delivers.members later).mpr laterMember)) with
    ⟨current, currentStands, taken⟩ | ⟨keeper, keeperMember, replica, epoch⟩
  · rw [deployment, stands] at currentStands
    obtain rfl := Option.some.inj currentStands
    rcases taken with bound | ⟨tombstoned, _⟩
    · exact absurd order bound.not_gt
    · simp [serving.1] at tombstoned
  · refine ⟨keeper, keeperMember, ?_, replica, epoch⟩
    intro same
    obtain ⟨current, currentStands, bound⟩ := history.reached keeper keeperMember
    rw [same, stands] at currentStands
    obtain rfl := Option.some.inj currentStands
    exact absurd (bound.trans order.le)
      (order_lt_of_epoch_lt recordId epoch).not_ge

end History

section Arrangement

variable {provenance : CatalogRecord → RecordProvenance} {chosen keepers : List CatalogRecord}

/-- The later records of a deployment that a keeper fences. -/
def fencedBy
    (recordId : CatalogRecord → String)
    (records : List CatalogRecord)
    (record keeper : CatalogRecord) : List CatalogRecord :=
  records.filter fun later =>
    (later.deploymentId = record.deploymentId ∧
      record.order recordId < later.order recordId) ∧
      keeper.replicaId = later.replicaId ∧ later.ownerEpoch < keeper.ownerEpoch

@[simp] theorem mem_fencedBy
    {keeper later : CatalogRecord} :
    later ∈ fencedBy recordId records record keeper ↔
      later ∈ records ∧ (later.deploymentId = record.deploymentId ∧
        record.order recordId < later.order recordId) ∧
        keeper.replicaId = later.replicaId ∧ later.ownerEpoch < keeper.ownerEpoch := by
  simp [fencedBy]

/-- Offer each keeper and, right after it, the later records that it fences. -/
def arrangement
    (recordId : CatalogRecord → String)
    (records : List CatalogRecord)
    (record : CatalogRecord)
    (keepers : List CatalogRecord) : List CatalogRecord :=
  keepers.flatMap fun keeper => keeper :: fencedBy recordId records record keeper

/-- A record stands beside keepers that are all earlier than those to come. -/
structure Guarded
    (recordId : CatalogRecord → String)
    (chosen : List CatalogRecord)
    (record : CatalogRecord)
    (keepers : List CatalogRecord)
    (view : CatalogView) : Prop where
  stands : view.slots record.deploymentId = some record
  keyed : ∀ deployment current, view.slots deployment = some current →
    current.deploymentId = deployment
  earlier : ∀ deployment current, view.slots deployment = some current →
    current = record ∨ current ∈ chosen ∧
      ∀ keeper ∈ keepers, current.order recordId < keeper.order recordId
  unseen : ∀ keeper ∈ keepers, recordId keeper ∉ view.recordIds

/-- The deployment of the next keeper holds an earlier chosen record, if any. -/
theorem Guarded.outranks
    (guarded : Guarded recordId chosen record (keeper :: keepers) view)
    (apart : keeper.deploymentId ≠ record.deploymentId) :
    ∀ current, view.slots keeper.deploymentId = some current →
      current ∈ chosen ∧ current.order recordId < keeper.order recordId := by
  intro current stands
  rcases guarded.earlier _ _ stands with rfl | ⟨member, earlier⟩
  · exact absurd (guarded.keyed _ _ stands).symm apart
  · exact ⟨member, earlier keeper List.mem_cons_self⟩

/-- The next keeper is not refused. -/
theorem Guarded.unrefused
    (guarded : Guarded recordId chosen record (keeper :: keepers) view)
    (compatible : Compatible recordId chosen)
    (member : keeper ∈ chosen)
    (apart : keeper.deploymentId ≠ record.deploymentId)
    (higher : record.ownerEpoch < keeper.ownerEpoch) :
    ¬(Fenced view.slots keeper ∨ Stale view.slots keeper ∨
      Resurrects view.slots keeper) := by
  rintro (⟨deployment, current, stands, _, exceeds⟩ | ⟨current, stands, exceeds⟩ |
    ⟨current, stands, tombstoned, standing, epoch⟩)
  · rcases guarded.earlier _ _ stands with rfl | ⟨_, earlier⟩
    · omega
    · have := epoch_le_of_order_le (earlier keeper List.mem_cons_self).le
      omega
  · have := epoch_le_of_order_le (guarded.outranks apart current stands).2.le
    omega
  · obtain ⟨currentMember, earlier⟩ := guarded.outranks apart current stands
    exact absurd earlier (compatible current currentMember keeper member
      (guarded.keyed _ _ stands) epoch.symm tombstoned standing).not_gt

/-- Offering the next keeper stores it beside the record. -/
theorem Guarded.offer
    (guarded : Guarded recordId chosen record (keeper :: keepers) view)
    (compatible : Compatible recordId chosen)
    (member : keeper ∈ chosen)
    (apart : keeper.deploymentId ≠ record.deploymentId)
    (higher : record.ownerEpoch < keeper.ownerEpoch)
    (sorted : ∀ next ∈ keepers, keeper.order recordId < next.order recordId ∧
      recordId keeper ≠ recordId next)
    (verified : keeper.verify (provenance keeper) scope membership = .ok ()) :
    let next := RecordView.offer (apply recordId (provenance keeper) scope membership)
      view keeper
    Guarded recordId chosen record keepers next ∧
      next.slots keeper.deploymentId = some keeper := by
  intro next
  rcases offer_cases recordId verified view with
    ⟨seen, _⟩ | ⟨_, refused⟩ | ⟨ids, outcome, step⟩
  · exact absurd seen (guarded.unseen keeper List.mem_cons_self)
  · exact absurd refused (guarded.unrefused compatible member apart higher)
  · have stored : next.slots =
        Function.update view.slots keeper.deploymentId (some keeper) := by
      have step : (rules recordId fun _ => True).Step view.slots keeper outcome next.slots :=
        step
      generalize next.slots = after at step
      cases step with
      | superseded _ stands bound =>
          exact absurd bound (guarded.outranks apart _ stands).2.not_ge
      | applied => rfl
    refine ⟨⟨?_, ?_, ?_, ?_⟩, by rw [stored]; exact Function.update_self _ _ _⟩
    · rw [stored, Function.update_of_ne apart.symm]
      exact guarded.stands
    · intro deployment current stands
      rcases step.source stands with before | ⟨_, rfl, rfl⟩
      · exact guarded.keyed deployment current before
      · rfl
    · intro deployment current stands
      rcases step.source stands with before | ⟨_, rfl, _⟩
      · refine (guarded.earlier deployment current before).imp_right fun earlier => ?_
        exact ⟨earlier.1, fun later laterMember =>
          earlier.2 later (List.mem_cons_of_mem _ laterMember)⟩
      · exact Or.inr ⟨member, fun later laterMember => (sorted later laterMember).1⟩
    · intro later laterMember seen
      rw [show next.recordIds = _ from ids, Std.ExtTreeSet.mem_insert,
        Std.LawfulEqCmp.compare_eq_iff_eq] at seen
      rcases seen with same | seen
      · exact (sorted later laterMember).2 same
      · exact guarded.unseen later (List.mem_cons_of_mem _ laterMember) seen

/-- A log of fenced records leaves the view as it is. -/
theorem deliver_fenced
    (log : List CatalogRecord)
    (verified : ∀ record ∈ log,
      record.verify (provenance record) scope membership = .ok ())
    (fenced : ∀ record ∈ log, Fenced view.slots record) :
    deliver recordId scope membership view (entries provenance log) = view := by
  induction log with
  | nil => rfl
  | cons record log inductionHypothesis =>
      rw [List.forall_mem_cons] at verified fenced
      rw [deliver_entries_cons]
      have same : RecordView.offer
          (apply recordId (provenance record) scope membership) view record = view := by
        rcases offer_cases recordId verified.1 view with ⟨_, same⟩ | ⟨same, _⟩ | ⟨_, _, step⟩
        · exact same
        · exact same
        · exact absurd fenced.1 (admitted_of_step step).1
      rw [same]
      exact inductionHypothesis verified.2 fenced.2

/-- The record still stands after the arrangement of its keepers. -/
theorem Guarded.arrange
    (guarded : Guarded recordId chosen record keepers view)
    (compatible : Compatible recordId chosen)
    (verified : ∀ record ∈ records,
      record.verify (provenance record) scope membership = .ok ())
    (drawn : chosen ⊆ records)
    (members : ∀ keeper ∈ keepers, keeper ∈ chosen ∧
      keeper.deploymentId ≠ record.deploymentId ∧ record.ownerEpoch < keeper.ownerEpoch)
    (sorted : keepers.Pairwise fun left right =>
      left.order recordId < right.order recordId ∧ recordId left ≠ recordId right) :
    (deliver recordId scope membership view
      (entries provenance (arrangement recordId records record keepers))).slots
        record.deploymentId = some record := by
  induction keepers generalizing view with
  | nil => exact guarded.stands
  | cons keeper keepers inductionHypothesis =>
      rw [List.forall_mem_cons] at members
      rw [List.pairwise_cons] at sorted
      obtain ⟨member, apart, higher⟩ := members.1
      obtain ⟨nextGuarded, keeperStands⟩ := guarded.offer compatible member apart higher
        sorted.1 (verified keeper (drawn member))
      have fenced := fun later (delivered : later ∈ fencedBy recordId records record keeper) =>
        (⟨_, keeper, keeperStands, (mem_fencedBy.mp delivered).2.2⟩ : Fenced _ later)
      rw [arrangement, List.flatMap_cons, List.cons_append, deliver_entries_cons,
        deliver_entries_append, deliver_fenced _ (fun later delivered =>
          verified later (mem_fencedBy.mp delivered).1) fenced]
      exact inductionHypothesis nextGuarded members.2 sorted.2

/-- Records without colliding hashes can be arranged from early to late. -/
theorem exists_sorted
    (injective : Set.InjOn recordId {record | record ∈ records})
    (drawn : chosen ⊆ records) :
    ∃ sorted : List CatalogRecord, (∀ record, record ∈ sorted ↔ record ∈ chosen) ∧
      sorted.Pairwise fun left right =>
        left.order recordId < right.order recordId ∧ recordId left ≠ recordId right := by
  let earlier : CatalogRecord → CatalogRecord → Bool := fun left right =>
    left.order recordId ≤ right.order recordId
  have perm := List.mergeSort_perm chosen.dedup earlier
  refine ⟨chosen.dedup.mergeSort earlier, fun record => ?_, ?_⟩
  · rw [perm.mem_iff, List.mem_dedup]
  · have ordered : (chosen.dedup.mergeSort earlier).Pairwise fun left right =>
        earlier left right = true := by
      refine List.pairwise_mergeSort ?_ ?_ _
      · intro left middle right
        simpa [earlier] using le_trans
      · intro left right
        simpa [earlier] using le_total (left.order recordId) (right.order recordId)
    have distinct : (chosen.dedup.mergeSort earlier).Nodup :=
      perm.nodup_iff.mpr (List.nodup_dedup chosen)
    refine (ordered.and distinct).imp_of_mem ?_
    rintro left right leftMember rightMember ⟨le, apart⟩
    rw [perm.mem_iff, List.mem_dedup] at leftMember rightMember
    have ids : recordId left ≠ recordId right := fun same =>
      apart (injective (drawn leftMember) (drawn rightMember) same)
    refine ⟨lt_of_le_of_ne (by simpa [earlier] using le) ?_, ids⟩
    exact fun same => ids (Rank.id_eq_of_eq same)

/-- A record that was offered first is guarded by the keepers to come. -/
theorem guarded_first
    (injective : Set.InjOn recordId {record | record ∈ records})
    (verified : record.verify (provenance record) scope membership = .ok ())
    (member : record ∈ records)
    (drawn : ∀ keeper ∈ keepers, keeper ∈ records ∧
      keeper.deploymentId ≠ record.deploymentId) :
    Guarded recordId chosen record keepers
      (RecordView.offer (apply recordId (provenance record) scope membership)
        .empty record) := by
  obtain ⟨first, ids⟩ := offer_empty recordId verified
  refine ⟨?_, ?_, ?_, ?_⟩
  · rw [first]
    exact Function.update_self _ _ _
  · intro deployment current stands
    rw [first] at stands
    obtain ⟨rfl, rfl⟩ := eq_of_stands_alone stands
    rfl
  · intro deployment current stands
    rw [first] at stands
    exact Or.inl (eq_of_stands_alone stands).2
  · intro keeper keeperMember seen
    obtain ⟨keeperDrawn, apart⟩ := drawn keeper keeperMember
    rw [ids, Std.ExtTreeSet.mem_insert, Std.LawfulEqCmp.compare_eq_iff_eq] at seen
    rcases seen with same | seen
    · exact apart (congrArg CatalogRecord.deploymentId (injective member keeperDrawn same)).symm
    · simp at seen

/-- Records that are not later for the deployment leave a standing record. -/
theorem stands_deliver_of_not_later
    (log : List CatalogRecord)
    (verified : ∀ record ∈ log,
      record.verify (provenance record) scope membership = .ok ())
    (stands : view.slots record.deploymentId = some record)
    (early : ∀ other ∈ log, ¬(other.deploymentId = record.deploymentId ∧
      record.order recordId < other.order recordId)) :
    (deliver recordId scope membership view (entries provenance log)).slots
      record.deploymentId = some record := by
  refine deliver_entries_invariant log verified
    (fun slots => slots record.deploymentId = some record) stands ?_
  intro slots next other outcome delivered stands step
  obtain ⟨current, currentStands, rise⟩ := step.rises stands
  rcases rise with rfl | rise
  · exact currentStands
  · rcases step.source currentStands with before | ⟨_, rfl, deployment⟩
    · rw [stands] at before
      obtain rfl := Option.some.inj before
      exact currentStands
    · exact absurd ⟨deployment.symm, rise⟩ (early _ delivered)

/-- A tenable record stands after some delivery. -/
theorem Tenable.stands
    (tenable : Tenable recordId records record)
    (injective : Set.InjOn recordId {record | record ∈ records})
    (verified : ∀ record ∈ records,
      record.verify (provenance record) scope membership = .ok ()) :
    ∃ log, Delivers scope membership records log ∧
      (deliver recordId scope membership .empty log).slots record.deploymentId =
        some record := by
  obtain ⟨chosen, drawn, compatible, keeps⟩ := tenable.keepers
  let able := chosen.filter fun keeper =>
    keeper.deploymentId ≠ record.deploymentId ∧ record.ownerEpoch < keeper.ownerEpoch
  have ableDrawn : able ⊆ records := fun _ member => drawn (List.mem_of_mem_filter member)
  obtain ⟨keepers, mem_keepers, sorted⟩ := exists_sorted injective ableDrawn
  have able_iff : ∀ keeper, keeper ∈ keepers ↔ keeper ∈ chosen ∧
      keeper.deploymentId ≠ record.deploymentId ∧ record.ownerEpoch < keeper.ownerEpoch := by
    intro keeper
    rw [mem_keepers]
    simp [able]
  let others := records.filter fun other =>
    ¬(other.deploymentId = record.deploymentId ∧
      record.order recordId < other.order recordId)
  have mem_others : ∀ other, other ∈ others ↔ other ∈ records ∧
      ¬(other.deploymentId = record.deploymentId ∧
        record.order recordId < other.order recordId) := by
    intro other
    simp only [others, List.mem_filter, decide_eq_true_eq]
  refine ⟨entries provenance
    (record :: (arrangement recordId records record keepers ++ others)), ?_, ?_⟩
  · refine delivers_entries verified fun other => ?_
    simp only [List.mem_cons, List.mem_append, arrangement, List.mem_flatMap, mem_fencedBy,
      mem_others]
    constructor
    · rintro (rfl | ⟨keeper, keeperMember, rfl | fenced⟩ | rest)
      · exact tenable.member
      · exact drawn ((able_iff _).mp keeperMember).1
      · exact fenced.1
      · exact rest.1
    · intro member
      by_cases later : other.deploymentId = record.deploymentId ∧
          record.order recordId < other.order recordId
      · obtain ⟨keeper, keeperMember, apart, replica, epoch⟩ :=
          keeps other member later.1 later.2
        have higher := epoch_le_of_order_le later.2.le
        exact Or.inr (Or.inl ⟨keeper, (able_iff _).mpr ⟨keeperMember, apart, by omega⟩,
          Or.inr ⟨member, later, replica, epoch⟩⟩)
      · exact Or.inr (Or.inr ⟨member, later⟩)
  · rw [deliver_entries_cons, deliver_entries_append]
    have guarded : Guarded recordId chosen record keepers _ :=
      guarded_first injective (verified record tenable.member) tenable.member
        fun keeper member => ⟨drawn ((able_iff keeper).mp member).1,
          ((able_iff keeper).mp member).2.1⟩
    exact stands_deliver_of_not_later others
      (fun other delivered => verified other ((mem_others other).mp delivered).1)
      (guarded.arrange compatible verified drawn (fun keeper => (able_iff keeper).mp) sorted)
      (fun other delivered => ((mem_others other).mp delivered).2)

end Arrangement

/-- The winner that a view reports for a replica is its latest standing serving
record. -/
theorem activeHealthyByReplica_eq_some_iff
    (keyed : ∀ deployment record, view.slots deployment = some record →
      record.deploymentId = deployment) :
    slotsOf (activeHealthyByReplica (valuesOf view.records)) replica = some record ↔
      view.slots record.deploymentId = some record ∧ record.Serving ∧
        record.replicaId = replica ∧
        ∀ other, view.slots other.deploymentId = some other → other.Serving →
          other.replicaId = replica → other.recordOrder ≤ record.recordOrder := by
  have mem_serving : ∀ {record : CatalogRecord},
      record ∈ (valuesOf view.records).filter (fun record => record.Serving) ↔
        view.slots record.deploymentId = some record ∧ record.Serving := by
    intro record
    simp only [List.mem_filter, mem_valuesOf, decide_eq_true_eq]
    refine and_congr_left fun _ => ⟨?_, fun stands => ⟨_, stands⟩⟩
    rintro ⟨deployment, stands⟩
    rwa [keyed deployment record stands]
  constructor
  · intro wins
    obtain ⟨member, replica_eq, greatest⟩ := latestBy_sound wins
    obtain ⟨stands, serving⟩ := mem_serving.mp member
    exact ⟨stands, serving, replica_eq, fun other otherStands otherServing =>
      greatest other (mem_serving.mpr ⟨otherStands, otherServing⟩)⟩
  · rintro ⟨stands, serving, rfl, greatest⟩
    have member := mem_serving.mpr ⟨stands, serving⟩
    obtain ⟨winner, wins⟩ :=
      latestBy_complete CatalogRecord.replicaId CatalogRecord.recordOrder member
    obtain ⟨winnerMember, winnerReplica, winnerGreatest⟩ := latestBy_sound wins
    obtain ⟨winnerStands, winnerServing⟩ := mem_serving.mp winnerMember
    have equal := le_antisymm (winnerGreatest record member rfl)
      (greatest winner winnerStands winnerServing winnerReplica)
    rw [← Rank.id_eq_of_eq equal, stands] at winnerStands
    obtain rfl := Option.some.inj winnerStands
    exact wins

theorem mem_activeHealthy :
    record ∈ activeHealthy view ↔
      ∃ replica, slotsOf (activeHealthyByReplica (valuesOf view.records)) replica =
        some record :=
  mem_valuesOf

/-- A standing serving record is matched by a winner of its replica. -/
theorem exists_winner
    (keyed : ∀ deployment record, view.slots deployment = some record →
      record.deploymentId = deployment)
    (stands : view.slots record.deploymentId = some record)
    (serving : record.Serving) :
    ∃ winner ∈ activeHealthy view, winner.replicaId = record.replicaId ∧
      record.recordOrder ≤ winner.recordOrder := by
  have member : record ∈ (valuesOf view.records).filter fun record => record.Serving := by
    simp only [List.mem_filter, decide_eq_true_eq]
    exact ⟨mem_valuesOf.mpr ⟨_, stands⟩, serving⟩
  obtain ⟨winner, wins⟩ :=
    latestBy_complete CatalogRecord.replicaId CatalogRecord.recordOrder member
  obtain ⟨_, _, replica, greatest⟩ := (activeHealthyByReplica_eq_some_iff keyed).mp wins
  exact ⟨winner, mem_activeHealthy.mpr ⟨_, wins⟩, replica,
    greatest record stands serving rfl⟩

/-- The standing records of a delivery stand for their deployments. -/
theorem Delivers.keyed
    (delivers : Delivers scope membership records log)
    (injective : Set.InjOn recordId {record | record ∈ records}) :
    ∀ deployment record,
      (deliver recordId scope membership .empty log).slots deployment = some record →
        record.deploymentId = deployment := by
  have chronicle : Chronicle recordId records [] .empty :=
    ⟨by rw [RecordView.slots_empty]; exact history_empty, by simp⟩
  have members : ∀ entry ∈ log, entry.1 ∈ records := fun entry delivered =>
    (delivers.members entry.1).mp (List.mem_map_of_mem delivered)
  obtain ⟨past, history, _⟩ := chronicle.deliver injective members delivers.verified
  exact fun deployment record stands => (history.standing deployment record stands).2

/-- Without contest, the winners after one delivery win after every other. -/
theorem Uncontested.winner_of_winner
    (uncontested : Uncontested recordId records)
    (injective : Set.InjOn recordId {record | record ∈ records})
    (leftDelivers : Delivers scope membership records left)
    (rightDelivers : Delivers scope membership records right)
    (wins : slotsOf (activeHealthyByReplica (valuesOf
      (deliver recordId scope membership .empty left).records)) replica = some record) :
    slotsOf (activeHealthyByReplica (valuesOf
      (deliver recordId scope membership .empty right).records)) replica = some record := by
  obtain ⟨stands, serving, rfl, greatest⟩ :=
    (activeHealthyByReplica_eq_some_iff (leftDelivers.keyed injective)).mp wins
  have bound : ∀ {assured}, Assured recordId records assured →
      assured.replicaId = record.replicaId → assured.recordOrder ≤ record.recordOrder :=
    fun assured replica =>
      greatest _ (assured.stands injective leftDelivers) assured.serving replica
  refine (activeHealthyByReplica_eq_some_iff (rightDelivers.keyed injective)).mpr
    ⟨?_, serving, rfl, ?_⟩
  · obtain ⟨assured, isAssured, replica, outranks⟩ :=
      uncontested record (leftDelivers.tenable injective stands serving)
    have same : record.deploymentId = assured.deploymentId :=
      Rank.id_eq_of_eq (le_antisymm outranks (bound isAssured replica))
    have assuredStands := isAssured.stands injective leftDelivers
    rw [← same, stands] at assuredStands
    obtain rfl := Option.some.inj assuredStands
    exact isAssured.stands injective rightDelivers
  · intro other otherStands otherServing replica
    obtain ⟨assured, isAssured, assuredReplica, outranks⟩ :=
      uncontested other (rightDelivers.tenable injective otherStands otherServing)
    exact outranks.trans (bound isAssured (assuredReplica.trans replica))

/-- Without contest, two deliveries report the same active and healthy records. -/
theorem Uncontested.activeHealthy_eq
    (uncontested : Uncontested recordId records)
    (injective : Set.InjOn recordId {record | record ∈ records})
    (leftDelivers : Delivers scope membership records left)
    (rightDelivers : Delivers scope membership records right) :
    activeHealthy (deliver recordId scope membership .empty left) =
      activeHealthy (deliver recordId scope membership .empty right) := by
  unfold activeHealthy activeHealthyWinners
  congr 1
  apply slotsOf_injective
  funext replica
  apply Option.ext
  intro record
  exact ⟨uncontested.winner_of_winner injective leftDelivers rightDelivers,
    uncontested.winner_of_winner injective rightDelivers leftDelivers⟩

/-- A record that every delivery reports is assured. -/
theorem assured_of_always_reported
    {provenance : CatalogRecord → RecordProvenance}
    (injective : Set.InjOn recordId {record | record ∈ records})
    (verified : ∀ record ∈ records,
      record.verify (provenance record) scope membership = .ok ())
    (member : record ∈ records)
    (serving : record.Serving)
    (reported : ∀ log, Delivers scope membership records log →
      record ∈ activeHealthy (deliver recordId scope membership .empty log)) :
    Assured recordId records record := by
  by_contra unassured
  obtain ⟨blocker, blockerMember, blocks⟩ := exists_blocks member serving unassured
  have delivers : Delivers scope membership records
      (entries provenance (blocker :: record :: records.filter (· ≠ record))) := by
    refine delivers_entries verified fun other => ?_
    simp only [List.mem_cons, List.mem_filter, decide_eq_true_eq]
    constructor
    · rintro (rfl | rfl | ⟨delivered, _⟩)
      · exact blockerMember
      · exact member
      · exact delivered
    · intro delivered
      by_cases same : other = record
      · exact Or.inr (Or.inl same)
      · exact Or.inr (Or.inr ⟨delivered, same⟩)
  obtain ⟨_, wins⟩ := mem_activeHealthy.mp (reported _ delivers)
  obtain ⟨stands, _⟩ :=
    (activeHealthyByReplica_eq_some_iff (delivers.keyed injective)).mp wins
  exact blocks.falls verified blockerMember member stands

/-- When every delivery reports the same records, a tenable record is matched by
an assured one. -/
theorem Tenable.matched
    {provenance : CatalogRecord → RecordProvenance}
    (tenable : Tenable recordId records record)
    (injective : Set.InjOn recordId {record | record ∈ records})
    (verified : ∀ record ∈ records,
      record.verify (provenance record) scope membership = .ok ())
    (independent : ∀ left right,
      Delivers scope membership records left → Delivers scope membership records right →
        activeHealthy (deliver recordId scope membership .empty left) =
          activeHealthy (deliver recordId scope membership .empty right)) :
    ∃ assured, Assured recordId records assured ∧
      assured.replicaId = record.replicaId ∧ record.recordOrder ≤ assured.recordOrder := by
  obtain ⟨log, delivers, stands⟩ := tenable.stands injective verified
  obtain ⟨winner, wins, replica, bound⟩ :=
    exists_winner (delivers.keyed injective) stands tenable.serving
  obtain ⟨_, reported⟩ := mem_activeHealthy.mp wins
  obtain ⟨winnerStands, winnerServing, _⟩ :=
    (activeHealthyByReplica_eq_some_iff (delivers.keyed injective)).mp reported
  have winnerTenable := delivers.tenable injective winnerStands winnerServing
  refine ⟨winner, ?_, replica, bound⟩
  refine assured_of_always_reported injective verified winnerTenable.member winnerServing ?_
  intro other otherDelivers
  rw [independent other log otherDelivers delivers]
  exact wins

/-- The active and healthy records of a view do not depend on the order in which
a set of verified records was delivered, nor on repetitions, precisely when
every tenable record is matched by an assured record of its replica. -/
theorem activeHealthy_eq_of_delivers_iff
    (recordId : CatalogRecord → String)
    (scope : MembershipScope)
    (membership : MembershipView)
    (records : List CatalogRecord)
    (injective : Set.InjOn recordId {record | record ∈ records})
    (verifiable : ∀ record ∈ records, ∃ provenance : RecordProvenance,
      record.verify provenance scope membership = .ok ()) :
    (∀ left right,
      Delivers scope membership records left → Delivers scope membership records right →
        activeHealthy (deliver recordId scope membership .empty left) =
          activeHealthy (deliver recordId scope membership .empty right)) ↔
      Uncontested recordId records := by
  constructor
  · intro independent record tenable
    have origin : ∀ record : CatalogRecord, ∃ provenance : RecordProvenance,
        record ∈ records → record.verify provenance scope membership = .ok () := by
      intro record
      by_cases member : record ∈ records
      · obtain ⟨provenance, verified⟩ := verifiable record member
        exact ⟨provenance, fun _ => verified⟩
      · exact ⟨.verified, fun present => absurd present member⟩
    choose provenance verified using origin
    exact tenable.matched injective verified independent
  · intro uncontested left right leftDelivers rightDelivers
    exact uncontested.activeHealthy_eq injective leftDelivers rightDelivers

/-- A serving deployment of the first owner epoch. -/
def servingDeployment : CatalogRecord :=
  sampleDeployment "d1" "r" "a" 1 1 .active .healthy

/-- A candidate of the same replica, committed under the next owner epoch. -/
def laterCandidate : CatalogRecord :=
  sampleDeployment "d2" "r" "a" 2 1 .candidate .unknown

/-- The content hashes of the two deployments. -/
def deploymentHash : CatalogRecord → String :=
  lookupId
    [(servingDeployment,
        "8707bd0fdb08f910917a8935f5031701afe4aae8231a4d5bb615829ed43a7134"),
      (laterCandidate,
        "317c117aa65fbd3feb9646c018bf3047cd0cafc45aace66c5da1f03922ef2bef")]

/-- A membership in which the owner of the deployments reached its next epoch. -/
def ownerMembership : MembershipView :=
  RecordView.offer
    (MembershipView.apply
      (lookupId [(sampleMember "a" "alpha" 1 2 1 .active,
        "deabce5856fd5c7f6b45fc02e8cac3101be328ce2ebae057c5d59ed4e5e98a94")])
      ⟨"p", 1⟩)
    .empty (sampleMember "a" "alpha" 1 2 1 .active)

/-- A connection from the owner of the deployments. -/
def ownerConnection : RecordProvenance :=
  .peer ⟨.v4 (sampleMember "a" "alpha" 1 2 1 .active).managementAddress, 51830⟩

theorem activeHealthy_eq_of_delivers_iff_sample :
    Set.InjOn deploymentHash {record | record ∈ [servingDeployment, laterCandidate]} ∧
      ((∀ left right,
        Delivers ⟨"p", 1⟩ ownerMembership [servingDeployment, laterCandidate] left →
        Delivers ⟨"p", 1⟩ ownerMembership [servingDeployment, laterCandidate] right →
          activeHealthy (deliver deploymentHash ⟨"p", 1⟩ ownerMembership .empty left) =
            activeHealthy (deliver deploymentHash ⟨"p", 1⟩ ownerMembership .empty right)) ↔
        Uncontested deploymentHash [servingDeployment, laterCandidate]) :=
  have injective : ∀ left ∈ [servingDeployment, laterCandidate],
      ∀ right ∈ [servingDeployment, laterCandidate],
        deploymentHash left = deploymentHash right → left = right := by decide
  have injOn : Set.InjOn deploymentHash
      {record | record ∈ [servingDeployment, laterCandidate]} :=
    fun left leftMember right rightMember => injective left leftMember right rightMember
  ⟨injOn, activeHealthy_eq_of_delivers_iff deploymentHash ⟨"p", 1⟩ ownerMembership
    [servingDeployment, laterCandidate] injOn
    (fun record member => ⟨ownerConnection, by revert record; decide⟩)⟩

/-- Whether the serving deployment is reported depends on which of the two
records arrives first. -/
theorem later_candidate_hides_serving_deployment :
    let early := [(servingDeployment, ownerConnection), (laterCandidate, ownerConnection)]
    let late := [(laterCandidate, ownerConnection), (servingDeployment, ownerConnection)]
    Delivers ⟨"p", 1⟩ ownerMembership [servingDeployment, laterCandidate] early ∧
      Delivers ⟨"p", 1⟩ ownerMembership [servingDeployment, laterCandidate] late ∧
      activeHealthy (deliver deploymentHash ⟨"p", 1⟩ ownerMembership .empty early) =
        [servingDeployment] ∧
      activeHealthy (deliver deploymentHash ⟨"p", 1⟩ ownerMembership .empty late) = [] := by
  refine ⟨⟨by decide, by simp⟩, ⟨by decide, by simp [or_comm]⟩, by decide, by decide⟩

end CatalogView
end Agent
end Jiji
