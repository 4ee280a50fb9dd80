import Jiji.Agent.Catalog

/-!
# Deliveries of catalog records

A set of verified records may reach a view in any order, with repetitions, and
records that the view refuses are skipped.  A serving record is assured when it
stands after every such delivery: it is of the largest owner epoch of its
replica, the latest of its deployment, and no tombstone of its deployment and
epoch is in the set.  A record that is not assured is blocked by another one
that arrives before it.
-/

namespace Jiji
namespace Agent
namespace CatalogView

open Replication

/-- Offer a sequence of records with their origins, skipping refused ones. -/
def deliver
    (recordId : CatalogRecord → String)
    (scope : MembershipScope)
    (membership : MembershipView)
    (view : CatalogView)
    (log : List (CatalogRecord × RecordProvenance)) : CatalogView :=
  log.foldl (fun view entry =>
    RecordView.offer (apply recordId entry.2 scope membership) view entry.1) view

/-- A log delivers a set of records, each with an origin that verifies. -/
structure Delivers
    (scope : MembershipScope)
    (membership : MembershipView)
    (records : List CatalogRecord)
    (log : List (CatalogRecord × RecordProvenance)) : Prop where
  verified : ∀ entry ∈ log, entry.1.verify entry.2 scope membership = .ok ()
  members : ∀ record, record ∈ log.map Prod.fst ↔ record ∈ records

/-- No record of the same replica has a larger owner epoch. -/
def Top (records : List CatalogRecord) (record : CatalogRecord) : Prop :=
  ∀ other ∈ records, other.replicaId = record.replicaId →
    other.ownerEpoch ≤ record.ownerEpoch

/-- No record of the same deployment is later. -/
def Latest
    (recordId : CatalogRecord → String)
    (records : List CatalogRecord)
    (record : CatalogRecord) : Prop :=
  ∀ other ∈ records, other.deploymentId = record.deploymentId →
    other.order recordId ≤ record.order recordId

/-- A tombstone of the same deployment and owner epoch is among the records. -/
def Disputed (records : List CatalogRecord) (record : CatalogRecord) : Prop :=
  ∃ tombstone ∈ records, tombstone.deploymentId = record.deploymentId ∧
    tombstone.ownerEpoch = record.ownerEpoch ∧ tombstone.state = .tombstoned

/-- A serving record that stands after every delivery. -/
structure Assured
    (recordId : CatalogRecord → String)
    (records : List CatalogRecord)
    (record : CatalogRecord) : Prop where
  member : record ∈ records
  serving : record.Serving
  top : Top records record
  latest : Latest recordId records record
  undisputed : ¬Disputed records record

variable {recordId : CatalogRecord → String} {scope : MembershipScope}
variable {membership : MembershipView} {records : List CatalogRecord}
variable {view : CatalogView} {slots next : Slots String CatalogRecord}
variable {record other : CatalogRecord} {outcome : Outcome}

/-- The order of records never decreases the owner epoch. -/
theorem epoch_le_of_order_le
    (le : record.order recordId ≤ other.order recordId) :
    record.ownerEpoch ≤ other.ownerEpoch :=
  Rank.epoch_le_of_le le

/-- A record of a larger owner epoch is later. -/
theorem order_lt_of_epoch_lt
    (recordId : CatalogRecord → String)
    (lt : record.ownerEpoch < other.ownerEpoch) :
    record.order recordId < other.order recordId :=
  Rank.of_lt_of.mpr (Or.inl lt)

/-- The standing records are drawn from a list and stand for their deployments. -/
def Drawn (records : List CatalogRecord) (slots : Slots String CatalogRecord) : Prop :=
  ∀ deployment record, slots deployment = some record →
    record ∈ records ∧ record.deploymentId = deployment

/-- A record whose origin verifies is seen, is refused by the fence,
its epoch or a tombstone, or takes a step. -/
theorem offer_cases
    (recordId : CatalogRecord → String)
    (verified : record.verify provenance scope membership = .ok ())
    (view : CatalogView) :
    (recordId record ∈ view.recordIds ∧
        RecordView.offer (apply recordId provenance scope membership) view record = view) ∨
      (RecordView.offer (apply recordId provenance scope membership) view record = view ∧
        (Fenced view.slots record ∨ Stale view.slots record ∨
          Resurrects view.slots record)) ∨
      ((RecordView.offer (apply recordId provenance scope membership) view record).recordIds =
          view.recordIds.insert (recordId record) ∧
        ∃ outcome, (rules recordId fun _ => True).Step view.slots record outcome
          (RecordView.offer (apply recordId provenance scope membership) view record).slots) := by
  have refines : RecordView.Refines
      (rules recordId fun record => record.verify provenance scope membership = .ok ())
      recordId (apply recordId provenance scope membership) := apply_refines
  rcases refines.offer_cases view record with
    ⟨seen, same⟩ | ⟨_, same, (unverified | fenced | stale) | ⟨resurrects, _⟩⟩ |
      ⟨_, ids, outcome, step⟩
  · exact Or.inl ⟨seen, same⟩
  · exact absurd verified unverified
  · exact Or.inr (Or.inl ⟨same, Or.inl fenced⟩)
  · exact Or.inr (Or.inl ⟨same, Or.inr (Or.inl stale)⟩)
  · exact Or.inr (Or.inl ⟨same, Or.inr (Or.inr resurrects)⟩)
  · exact Or.inr (Or.inr ⟨ids, outcome, step_mono (fun _ => trivial) step⟩)

theorem Drawn.step
    (drawn : Drawn records slots)
    (member : record ∈ records)
    (step : (rules recordId fun _ => True).Step slots record outcome next) :
    Drawn records next := by
  intro deployment current stands
  rcases step.source stands with before | ⟨_, rfl, rfl⟩
  · exact drawn deployment current before
  · exact ⟨member, rfl⟩

/-- A step is taken neither below the fence nor below the standing epoch. -/
theorem admitted_of_step
    (step : (rules recordId fun _ => True).Step slots record outcome next) :
    ¬Fenced slots record ∧ ¬Stale slots record := by
  cases step with
  | superseded admitted =>
      exact ⟨fun fenced => admitted (Or.inr (Or.inl fenced)),
        fun stale => admitted (Or.inr (Or.inr stale))⟩
  | applied admitted =>
      exact ⟨fun fenced => admitted (Or.inr (Or.inl fenced)),
        fun stale => admitted (Or.inr (Or.inr stale))⟩

section Assurance

/-- An assured record is never refused. -/
theorem Assured.unrefused
    (assured : Assured recordId records record)
    (drawn : Drawn records slots) :
    ¬(Fenced slots record ∨ Stale slots record ∨ Resurrects slots record) := by
  rintro (⟨deployment, current, stands, replica, exceeds⟩ | ⟨current, stands, exceeds⟩ |
    ⟨current, stands, tombstoned, _, epoch⟩)
  · have := assured.top current (drawn _ _ stands).1 replica
    omega
  · obtain ⟨member, deployment⟩ := drawn _ _ stands
    have := epoch_le_of_order_le (assured.latest current member deployment)
    omega
  · obtain ⟨member, deployment⟩ := drawn _ _ stands
    exact assured.undisputed ⟨current, member, deployment, epoch.symm, tombstoned⟩

/-- An assured record that stands is kept by every step. -/
theorem Assured.stands_step
    (assured : Assured recordId records record)
    (drawn : Drawn records slots)
    (member : other ∈ records)
    (stands : slots record.deploymentId = some record)
    (step : (rules recordId fun _ => True).Step slots other outcome next) :
    next record.deploymentId = some record := by
  obtain ⟨later, laterStands, rise⟩ := step.rises stands
  rcases rise with rfl | rise
  · exact laterStands
  · obtain ⟨laterMember, deployment⟩ := (drawn.step member step) _ _ laterStands
    exact absurd rise (assured.latest later laterMember deployment).not_gt

/-- An offered assured record stands afterwards. -/
theorem Assured.stands_of_step
    (assured : Assured recordId records record)
    (injective : Set.InjOn recordId {record | record ∈ records})
    (drawn : Drawn records slots)
    (step : (rules recordId fun _ => True).Step slots record outcome next) :
    next record.deploymentId = some record := by
  obtain ⟨current, stands, bound⟩ := step.stands
  obtain ⟨member, deployment⟩ := (drawn.step assured.member step) _ _ stands
  have equal := le_antisymm bound (assured.latest current member deployment)
  obtain rfl := injective assured.member member (Rank.id_eq_of_eq equal)
  exact stands

/-- A view drawn from the records in which an assured record stands once it was
taken in. -/
structure Holds
    (recordId : CatalogRecord → String)
    (records : List CatalogRecord)
    (assured : CatalogRecord)
    (view : CatalogView) : Prop where
  drawn : Drawn records view.slots
  stands : recordId assured ∈ view.recordIds →
    view.slots assured.deploymentId = some assured

/-- One offer keeps the hold on an assured record, and establishes it when it
offers the record. -/
theorem Holds.offer
    (holds : Holds recordId records assured view)
    (isAssured : Assured recordId records assured)
    (injective : Set.InjOn recordId {record | record ∈ records})
    (member : record ∈ records)
    (verified : record.verify provenance scope membership = .ok ()) :
    let next := RecordView.offer (apply recordId provenance scope membership) view record
    Holds recordId records assured next ∧
      (view.slots assured.deploymentId = some assured →
        next.slots assured.deploymentId = some assured) ∧
      (record = assured → next.slots assured.deploymentId = some assured) := by
  intro next
  rcases offer_cases recordId verified view with
    ⟨seen, same⟩ | ⟨same, refused⟩ | ⟨ids, outcome, step⟩
  · have next_eq : next = view := same
    rw [next_eq]
    refine ⟨holds, id, ?_⟩
    rintro rfl
    exact holds.stands seen
  · have next_eq : next = view := same
    rw [next_eq]
    refine ⟨holds, id, ?_⟩
    rintro rfl
    exact absurd refused (isAssured.unrefused holds.drawn)
  · refine ⟨⟨holds.drawn.step member step, ?_⟩, ?_, ?_⟩
    · intro seen
      rw [show next.recordIds = _ from ids, Std.ExtTreeSet.mem_insert,
        Std.LawfulEqCmp.compare_eq_iff_eq] at seen
      rcases seen with same | seen
      · obtain rfl := injective member isAssured.member same
        exact isAssured.stands_of_step injective holds.drawn step
      · exact isAssured.stands_step holds.drawn member (holds.stands seen) step
    · exact fun stands => isAssured.stands_step holds.drawn member stands step
    · rintro rfl
      exact isAssured.stands_of_step injective holds.drawn step

/-- A delivery keeps the hold on an assured record, and the record stands once it
was delivered. -/
theorem Holds.deliver
    (holds : Holds recordId records assured view)
    (isAssured : Assured recordId records assured)
    (injective : Set.InjOn recordId {record | record ∈ records})
    (members : ∀ entry ∈ log, entry.1 ∈ records)
    (verified : ∀ entry ∈ log, entry.1.verify entry.2 scope membership = .ok ()) :
    let final := deliver recordId scope membership view log
    (view.slots assured.deploymentId = some assured →
        final.slots assured.deploymentId = some assured) ∧
      (assured ∈ log.map Prod.fst → final.slots assured.deploymentId = some assured) := by
  induction log generalizing view with
  | nil => exact ⟨id, by simp⟩
  | cons entry log inductionHypothesis =>
      rw [List.forall_mem_cons] at members verified
      obtain ⟨nextHolds, keeps, establishes⟩ :=
        holds.offer isAssured injective members.1 verified.1
      obtain ⟨laterKeeps, laterEstablishes⟩ :=
        inductionHypothesis nextHolds members.2 verified.2
      refine ⟨fun stands => laterKeeps (keeps stands), ?_⟩
      rw [List.map_cons, List.mem_cons]
      rintro (same | delivered)
      · exact laterKeeps (establishes same.symm)
      · exact laterEstablishes delivered

/-- Assured records stand after every delivery. -/
theorem Assured.stands
    (assured : Assured recordId records record)
    (injective : Set.InjOn recordId {record | record ∈ records})
    (delivers : Delivers scope membership records log) :
    (deliver recordId scope membership .empty log).slots record.deploymentId =
      some record := by
  have holds : Holds recordId records record .empty :=
    ⟨by simp [Drawn, Slots.empty], by simp⟩
  have members : ∀ entry ∈ log, entry.1 ∈ records := fun entry delivered =>
    (delivers.members entry.1).mp (List.mem_map_of_mem delivered)
  exact (holds.deliver assured injective members delivers.verified).2
    ((delivers.members record).mpr assured.member)

end Assurance

/-- The entries that deliver records under chosen origins. -/
def entries
    (provenance : CatalogRecord → RecordProvenance)
    (log : List CatalogRecord) : List (CatalogRecord × RecordProvenance) :=
  log.map fun record => (record, provenance record)

section Orders

variable {provenance : CatalogRecord → RecordProvenance}

theorem deliver_entries_cons
    (provenance : CatalogRecord → RecordProvenance)
    (view : CatalogView)
    (record : CatalogRecord)
    (log : List CatalogRecord) :
    deliver recordId scope membership view (entries provenance (record :: log)) =
      deliver recordId scope membership
        (RecordView.offer (apply recordId (provenance record) scope membership) view record)
        (entries provenance log) :=
  rfl

theorem deliver_entries_append
    (provenance : CatalogRecord → RecordProvenance)
    (view : CatalogView)
    (log later : List CatalogRecord) :
    deliver recordId scope membership view (entries provenance (log ++ later)) =
      deliver recordId scope membership
        (deliver recordId scope membership view (entries provenance log))
        (entries provenance later) := by
  simp [deliver, entries]

theorem delivers_entries
    (verified : ∀ record ∈ records,
      record.verify (provenance record) scope membership = .ok ())
    {log : List CatalogRecord}
    (members : ∀ record, record ∈ log ↔ record ∈ records) :
    Delivers scope membership records (entries provenance log) := by
  constructor
  · intro entry member
    obtain ⟨record, delivered, rfl⟩ := List.mem_map.mp member
    exact verified record ((members record).mp delivered)
  · intro record
    simp [entries, ← members]

/-- An invariant of the standing records that no step of a log breaks. -/
theorem deliver_entries_invariant
    (log : List CatalogRecord)
    (verified : ∀ record ∈ log,
      record.verify (provenance record) scope membership = .ok ())
    (Invariant : Slots String CatalogRecord → Prop)
    (holds : Invariant view.slots)
    (step : ∀ {slots next record outcome}, record ∈ log → Invariant slots →
      (rules recordId fun _ => True).Step slots record outcome next → Invariant next) :
    Invariant (deliver recordId scope membership view (entries provenance log)).slots := by
  induction log generalizing view with
  | nil => exact holds
  | cons record log inductionHypothesis =>
      rw [List.forall_mem_cons] at verified
      rw [deliver_entries_cons]
      refine inductionHypothesis verified.2 ?_ fun member =>
        step (List.mem_cons_of_mem _ member)
      rcases offer_cases recordId verified.1 view with ⟨_, same⟩ | ⟨same, _⟩ | ⟨_, _, took⟩
      · rwa [same]
      · rwa [same]
      · exact step List.mem_cons_self holds took

/-- A step from the empty register file stores the record. -/
theorem step_empty
    (step : (rules recordId fun _ => True).Step Slots.empty record outcome next) :
    next = Function.update Slots.empty record.deploymentId (some record) := by
  cases step with
  | superseded _ stands => simp [Slots.empty] at stands
  | applied => rfl

theorem eq_of_stands_alone
    (stands : Function.update Slots.empty record.deploymentId (some record) deployment =
      some other) :
    deployment = record.deploymentId ∧ other = record := by
  by_cases here : deployment = record.deploymentId
  · rw [here, Function.update_self] at stands
    exact ⟨here, (Option.some.inj stands).symm⟩
  · rw [Function.update_of_ne here] at stands
    simp [Slots.empty] at stands

/-- The first record offered to the empty view stands alone. -/
theorem offer_empty
    (recordId : CatalogRecord → String)
    (verified : record.verify (provenance record) scope membership = .ok ()) :
    let next := RecordView.offer (apply recordId (provenance record) scope membership)
      .empty record
    next.slots = Function.update Slots.empty record.deploymentId (some record) ∧
      next.recordIds = (∅ : Std.ExtTreeSet String).insert (recordId record) := by
  intro next
  rcases offer_cases recordId verified .empty with
    ⟨seen, _⟩ | ⟨_, refused⟩ | ⟨ids, outcome, step⟩
  · simp at seen
  · simp [Fenced, Stale, Resurrects, Slots.empty] at refused
  · rw [RecordView.slots_empty] at step
    exact ⟨step_empty step, ids⟩

/-- An earlier record that keeps a record from being stored: it raises the fence
of the replica, is later for the deployment, or is a tombstone of its epoch. -/
def Blocks (recordId : CatalogRecord → String) (blocker record : CatalogRecord) : Prop :=
  (blocker.replicaId = record.replicaId ∧ record.ownerEpoch < blocker.ownerEpoch) ∨
    (blocker.deploymentId = record.deploymentId ∧
      record.order recordId < blocker.order recordId) ∨
    (blocker.deploymentId = record.deploymentId ∧
      blocker.ownerEpoch = record.ownerEpoch ∧
      blocker.state = .tombstoned ∧ record.state ≠ .tombstoned)

theorem Blocks.ne {blocker : CatalogRecord} (blocks : Blocks recordId blocker record) :
    blocker ≠ record := by
  rintro rfl
  rcases blocks with ⟨_, epoch⟩ | ⟨_, order⟩ | ⟨_, _, tombstoned, standing⟩
  · exact lt_irrefl _ epoch
  · exact lt_irrefl _ order
  · exact standing tombstoned

/-- A serving record that is not assured is blocked by another record. -/
theorem exists_blocks
    (member : record ∈ records)
    (serving : record.Serving)
    (unassured : ¬Assured recordId records record) :
    ∃ blocker ∈ records, Blocks recordId blocker record := by
  by_contra unblocked
  push Not at unblocked
  refine unassured ⟨member, serving, ?_, ?_, ?_⟩
  · intro other otherMember replica
    by_contra exceeds
    exact unblocked other otherMember (Or.inl ⟨replica, not_le.mp exceeds⟩)
  · intro other otherMember deployment
    by_contra later
    exact unblocked other otherMember (Or.inr (Or.inl ⟨deployment, not_le.mp later⟩))
  · rintro ⟨tombstone, tombstoneMember, deployment, epoch, tombstoned⟩
    refine unblocked tombstone tombstoneMember
      (Or.inr (Or.inr ⟨deployment, epoch, tombstoned, ?_⟩))
    simp [serving.1]

/-- A blocked record does not replace its blocker. -/
theorem Blocks.step_eq
    (blocks : Blocks recordId blocker record)
    (stands : slots blocker.deploymentId = some blocker)
    (step : (rules recordId fun _ => True).Step slots record outcome next) :
    next = slots := by
  have unfenced := (admitted_of_step step).1
  cases step with
  | superseded => rfl
  | applied _ outranks lawful =>
      rcases blocks with ⟨replica, epoch⟩ | ⟨deployment, order⟩ |
        ⟨deployment, epoch, tombstoned, standing⟩
      · exact absurd ⟨_, blocker, stands, replica, epoch⟩ unfenced
      · have here : slots record.deploymentId = some blocker := deployment ▸ stands
        exact absurd order (outranks blocker here).not_gt
      · have here : slots record.deploymentId = some blocker := deployment ▸ stands
        exact absurd ⟨blocker, here, tombstoned, standing, epoch.symm⟩ lawful

/-- A blocked record does not stand after a delivery that offers its blocker
first and the record itself only once, right after. -/
theorem Blocks.falls
    (blocks : Blocks recordId blocker record)
    (verified : ∀ record ∈ records,
      record.verify (provenance record) scope membership = .ok ())
    (blockerMember : blocker ∈ records)
    (member : record ∈ records) :
    (deliver recordId scope membership .empty
      (entries provenance
        (blocker :: record :: records.filter (· ≠ record)))).slots record.deploymentId ≠
        some record := by
  rw [deliver_entries_cons, deliver_entries_cons]
  obtain ⟨first, _⟩ := offer_empty recordId (verified blocker blockerMember)
  set alone := RecordView.offer
    (apply recordId (provenance blocker) scope membership) .empty blocker
  have blockerStands : alone.slots blocker.deploymentId = some blocker := by
    rw [first]
    exact Function.update_self _ _ _
  have kept : (RecordView.offer (apply recordId (provenance record) scope membership)
      alone record).slots = alone.slots := by
    rcases offer_cases recordId (verified record member) alone with
      ⟨_, same⟩ | ⟨same, _⟩ | ⟨_, outcome, step⟩
    · rw [same]
    · rw [same]
    · exact blocks.step_eq blockerStands step
  intro stands
  refine deliver_entries_invariant (records.filter (· ≠ record))
    (fun other delivered => verified other (List.mem_of_mem_filter delivered))
    (fun slots => ∀ deployment current, slots deployment = some current →
      current ≠ record) ?_ ?_ _ _ stands rfl
  · intro deployment current stands
    rw [kept, first] at stands
    exact (eq_of_stands_alone stands).2 ▸ blocks.ne
  · intro slots next other outcome delivered holds step deployment current stands
    rcases step.source stands with before | ⟨_, rfl, _⟩
    · exact holds deployment current before
    · simpa using List.of_mem_filter delivered

end Orders

end CatalogView
end Agent
end Jiji
