import Jiji.Agent.Desired

/-!
# The last writer of a service wins

However often and in whatever order verified records of the desired state are delivered, a
view ends up with the greatest record of every service, and reports a record as applied
exactly when it becomes the winner of its service.
-/

namespace Jiji
namespace Agent
namespace DesiredStateView

open Replication

variable {recordId : DesiredStateRecord → String} {scope : MembershipScope}
variable {membership : MembershipView} {view : DesiredStateView}
variable {delivered : List DesiredStateRecord} {record : DesiredStateRecord}

/-- A view has taken in the delivered records, and the greatest of each service stands. -/
structure Winners
    (recordId : DesiredStateRecord → String)
    (view : DesiredStateView)
    (delivered : List DesiredStateRecord) : Prop where
  seen : ∀ id, id ∈ view.recordIds ↔ ∃ record ∈ delivered, recordId record = id
  standing : ∀ service record, view.slots service = some record →
    record ∈ delivered ∧ record.service = service
  greatest : ∀ record ∈ delivered, ∃ winner, view.slots record.service = some winner ∧
    record.order recordId ≤ winner.order recordId

/-- A record stands if and only if it is the greatest of its service. -/
theorem Winners.slots_eq_some_iff
    (winners : Winners recordId view delivered)
    (injective : Set.InjOn recordId {record | record ∈ delivered}) :
    view.slots service = some record ↔
      record ∈ delivered ∧ record.service = service ∧
        ∀ other ∈ delivered, other.service = service →
          other.order recordId ≤ record.order recordId := by
  constructor
  · intro stands
    obtain ⟨member, rfl⟩ := winners.standing service record stands
    refine ⟨member, rfl, fun other otherMember same => ?_⟩
    obtain ⟨winner, wins, outranked⟩ := winners.greatest other otherMember
    rw [same, stands] at wins
    rwa [Option.some.inj wins]
  · rintro ⟨member, rfl, largest⟩
    obtain ⟨winner, wins, outranked⟩ := winners.greatest record member
    obtain ⟨winnerMember, same⟩ := winners.standing _ winner wins
    have equal := le_antisymm outranked (largest winner winnerMember same)
    rw [wins, injective member winnerMember (congrArg (fun rank => (ofLex rank).2) equal)]

/-- A view that takes in a record lets it stand or not, as the record's rank says. -/
theorem Winners.settle
    (winners : Winners recordId view delivered)
    (new : record ∉ delivered)
    (ids : next.recordIds = view.recordIds.insert (recordId record))
    (step : (rules recordId admits).Step view.slots record outcome next.slots) :
    Winners recordId next (delivered ++ [record]) ∧
      (outcome = .applied ↔ view.slots record.service ≠ some record ∧
        next.slots record.service = some record) := by
  have unseated : view.slots record.service ≠ some record :=
    fun stands => new (winners.standing _ record stands).1
  refine ⟨⟨fun id => ?_, fun service other stands => ?_, fun other member => ?_⟩, ?_⟩
  · rw [ids, Std.ExtTreeSet.mem_insert, winners.seen]
    simp [or_comm]
  · rcases step.source stands with before | ⟨_, rfl, rfl⟩
    · obtain ⟨member, same⟩ := winners.standing service other before
      exact ⟨List.mem_append_left _ member, same⟩
    · exact ⟨by simp, rfl⟩
  · rcases List.mem_append.mp member with before | last
    · obtain ⟨winner, wins, outranked⟩ := winners.greatest other before
      obtain ⟨later, stands, rises⟩ := step.rises wins
      refine ⟨later, stands, outranked.trans ?_⟩
      rcases rises with rfl | rises
      · exact le_rfl
      · exact rises.le
    · rw [List.mem_singleton.mp last]
      exact step.stands
  · generalize next.slots = slots at step
    cases step with
    | superseded => simp [unseated]
    | applied => simpa [rules] using unseated

/-- Delivering a verified record. -/
theorem Winners.apply
    (winners : Winners recordId view delivered)
    (verified : record.verify provenance scope membership = .ok ())
    (injective : Set.InjOn recordId {other | other ∈ delivered ++ [record]}) :
    ∃ outcome next,
      DesiredStateView.apply recordId provenance scope membership view record =
        .ok (outcome, next) ∧
      Winners recordId next (delivered ++ [record]) ∧
      (outcome = .applied ↔ view.slots record.service ≠ some record ∧
        next.slots record.service = some record) := by
  by_cases seen : recordId record ∈ view.recordIds
  · obtain ⟨other, member, same⟩ := (winners.seen _).mp seen
    obtain rfl : other = record := injective (by simp [member]) (by simp) same
    refine ⟨.duplicate, view, by simp [DesiredStateView.apply, verified, seen], ⟨?_, ?_, ?_⟩, ?_⟩
    · intro id
      rw [winners.seen]
      simp only [List.mem_append, List.mem_singleton, or_and_right, exists_or, exists_eq_left]
      exact ⟨Or.inl, fun found => found.elim (·) fun same => ⟨other, member, same⟩⟩
    · intro service standing stands
      obtain ⟨isDelivered, serves⟩ := winners.standing service standing stands
      exact ⟨List.mem_append_left _ isDelivered, serves⟩
    · simpa [or_imp, forall_and] using ⟨winners.greatest, winners.greatest other member⟩
    · simp
  · have new : record ∉ delivered := fun member => seen ((winners.seen _).mpr ⟨_, member, rfl⟩)
    obtain ⟨barred | ⟨⟨⟩, _⟩⟩ | ⟨outcome, slots, step⟩ := (rules recordId fun record =>
      record.verify provenance scope membership = .ok ()).refused_or_step view.slots record
    · exact absurd verified barred
    · obtain ⟨next, rfl, ids⟩ : ∃ next : DesiredStateView, next.slots = slots ∧
          next.recordIds = view.recordIds.insert (recordId record) := by
        cases step with
        | superseded => exact ⟨view.note (recordId record), rfl, rfl⟩
        | applied => exact ⟨view.place record.service (recordId record) record,
            RecordView.slots_place _ _ _ _, rfl⟩
      exact ⟨outcome, next, (apply_settles seen _).mpr (RecordView.settles_iff.mpr ⟨step, ids⟩),
        winners.settle new ids step⟩

theorem Winners.replay
    (winners : Winners recordId view delivered)
    (verified : ∀ delivery ∈ deliveries,
      delivery.1.verify delivery.2 scope membership = .ok ())
    (injective : Set.InjOn recordId
      {record | record ∈ delivered ++ deliveries.map Prod.fst}) :
    ∃ final, RecordView.replay (fun view entry =>
        DesiredStateView.apply recordId entry.2 scope membership view entry.1) view deliveries =
          .ok final ∧
      Winners recordId final (delivered ++ deliveries.map Prod.fst) := by
  induction deliveries generalizing view delivered with
  | nil => exact ⟨view, rfl, by simpa using winners⟩
  | cons delivery deliveries inductionHypothesis =>
      rw [List.forall_mem_cons] at verified
      have reassociated : delivered ++ (delivery :: deliveries).map Prod.fst =
          delivered ++ [delivery.1] ++ deliveries.map Prod.fst := by simp
      rw [reassociated] at injective ⊢
      obtain ⟨outcome, next, applied, after, _⟩ := winners.apply verified.1
        (injective.mono fun _ member => List.mem_append_left _ member)
      obtain ⟨final, replayed, wins⟩ := inductionHypothesis after verified.2 injective
      exact ⟨final, by rw [RecordView.replay, applied]; exact replayed, wins⟩

theorem winners_empty : Winners recordId .empty [] := by
  refine ⟨fun id => ?_, fun service record stands => ?_, by simp⟩
  · simp [RecordView.empty]
  · simp [RecordView.empty, RecordView.slots, slotsOf] at stands

/-- A view holds the greatest delivered record of each service, and applies exactly the records
that become the winner when they are delivered. -/
theorem last_writer_wins
    (recordId : DesiredStateRecord → String)
    (scope : MembershipScope)
    (membership : MembershipView)
    (deliveries : List (DesiredStateRecord × RecordProvenance))
    (verified : ∀ delivery ∈ deliveries,
      delivery.1.verify delivery.2 scope membership = .ok ())
    (injective : Set.InjOn recordId {record | record ∈ deliveries.map Prod.fst}) :
    (∃ view, fromRecords recordId deliveries scope membership = .ok view ∧
      ∀ service record, view.slots service = some record ↔
        record ∈ deliveries.map Prod.fst ∧ record.service = service ∧
          ∀ other ∈ deliveries.map Prod.fst, other.service = service →
            other.order recordId ≤ record.order recordId) ∧
    ∀ earlier delivery later, deliveries = earlier ++ delivery :: later →
      ∃ before outcome after, fromRecords recordId earlier scope membership = .ok before ∧
        DesiredStateView.apply recordId delivery.2 scope membership before delivery.1 =
          .ok (outcome, after) ∧
        (outcome = .applied ↔ before.slots delivery.1.service ≠ some delivery.1 ∧
          after.slots delivery.1.service = some delivery.1) := by
  constructor
  · obtain ⟨view, replayed, winners⟩ := winners_empty.replay verified (by simpa using injective)
    exact ⟨view, replayed, fun service record => winners.slots_eq_some_iff injective⟩
  · rintro earlier delivery later rfl
    rw [List.forall_mem_append, List.forall_mem_cons] at verified
    have prior {records : List DesiredStateRecord}
        (subset : ∀ record ∈ records, record ∈ earlier.map Prod.fst ++ [delivery.1]) :
        Set.InjOn recordId {record | record ∈ records} := by
      refine injective.mono fun record member => ?_
      have early := subset record member
      simp only [Set.mem_ofPred_eq, List.map_append, List.map_cons, List.mem_append,
        List.mem_cons, List.not_mem_nil, or_false] at early ⊢
      exact early.imp_right Or.inl
    obtain ⟨before, replayed, winners⟩ := winners_empty.replay verified.1
      (prior fun record member => List.mem_append_left _ (by simpa using member))
    obtain ⟨outcome, after, applied, _, reported⟩ :=
      winners.apply verified.2.1 (prior fun record member => by simpa using member)
    exact ⟨before, outcome, after, replayed, applied, reported⟩

/-- Two records of a service, the later one delivered twice. -/
def sampleDeliveries : List (DesiredStateRecord × RecordProvenance) :=
  [(sampleDesired "web" (some 3) 2 "a" 1, .verified),
    (sampleDesired "web" (some 1) 1 "a" 1, .verified),
    (sampleDesired "web" (some 3) 2 "a" 1, .localNode)]

theorem last_writer_wins_sampleDeliveries :
    ∃ view, fromRecords (fun record => toString record.revision) sampleDeliveries ⟨"p", 1⟩
        (RecordView.empty.place "a" "m" (sampleMember "a" "alpha" 1 1 1 .active)) = .ok view ∧
      view.slots "web" = some (sampleDesired "web" (some 3) 2 "a" 1) := by
  obtain ⟨⟨view, replayed, greatest⟩, _⟩ := last_writer_wins
    (fun record => toString record.revision) ⟨"p", 1⟩
    (RecordView.empty.place "a" "m" (sampleMember "a" "alpha" 1 1 1 .active)) sampleDeliveries
    (by decide +kernel) (by
      intro left leftMember right rightMember same
      simp only [sampleDeliveries, List.map_cons, List.map_nil, Set.mem_ofPred_eq,
        List.mem_cons, List.not_mem_nil, or_false] at leftMember rightMember
      rcases leftMember with rfl | rfl | rfl <;> rcases rightMember with rfl | rfl | rfl <;>
        first | rfl | (revert same; decide))
  exact ⟨view, replayed, (greatest _ _).mpr (by decide +kernel)⟩

end DesiredStateView
end Agent
end Jiji
