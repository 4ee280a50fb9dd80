import Jiji.Control.Fallible
import Jiji.Replication.View

/-!
# Ledgers

A ledger keeps the state of a register file twice, as an append-only log of
operations and as a table of winning records, and may drop the operations that
no longer win.  A ledger is sound when its log replays to its table.  Ingesting
an accepted record and compacting the log both keep a ledger sound.
-/

set_option linter.unusedSectionVars false

namespace Replication

open Std

variable {κ ι ρ ε Ω : Type*}
variable [Ord κ] [TransOrd κ] [LawfulEqOrd κ] [DecidableEq κ]
variable [Ord ι] [TransOrd ι] [LawfulEqOrd ι] [DecidableEq ι]
variable [LinearOrder Ω]

/-- Whether an action reports that it applied its record. -/
def applies {σ : Type*} : Except ε (Outcome × σ) → Bool
  | .ok (outcome, _) => outcome = .applied
  | .error _ => false

/-- An operation log with the table of the records that win. -/
structure Ledger (κ ρ : Type*) [Ord κ] [TransOrd κ] where
  operations : List ρ
  winners : ExtTreeMap κ ρ

namespace Ledger

/-- The ledger without operations. -/
def empty : Ledger κ ρ where
  operations := []
  winners := ∅

/-- Log a record, and let it win its key when it was applied. -/
def append
    (ledger : Ledger κ ρ)
    (key : ρ → κ)
    (outcome : Outcome)
    (record : ρ) : Ledger κ ρ where
  operations := ledger.operations ++ [record]
  winners :=
    if outcome = .applied then ledger.winners.insert (key record) record
    else ledger.winners

/-- Keep only the operations whose identifier belongs to a winner. -/
def compact (ledger : Ledger κ ρ) (ident : ρ → ι) : Ledger κ ρ where
  operations := ledger.operations.filter fun record =>
    decide (ident record ∈ (valuesOf ledger.winners).map ident)
  winners := ledger.winners

/-- Rebuild the view of a log and say what it would do with a record. -/
def judge
    (rebuild : List ρ → Except ε (RecordView κ ι ρ))
    (apply : RecordView κ ι ρ → ρ → Except ε (Outcome × RecordView κ ι ρ))
    (log : List ρ)
    (record : ρ) : Except ε Outcome :=
  match rebuild log with
  | .error error => .error error
  | .ok view => (apply view record).map Prod.fst

/-- Ingest one record: a logged identifier is a duplicate; otherwise the record
is judged against the log and, unless refused, logged in one transaction.  A
winning record that the table of winners cannot store aborts the transaction. -/
def ingest
    (key : ρ → κ)
    (ident : ρ → ι)
    (storable : ExtTreeMap κ ρ → ρ → Bool)
    (constraint : ε)
    (capacity : Except ε Unit)
    (judge : List ρ → ρ → Except ε Outcome)
    (ledger : Ledger κ ρ)
    (record : ρ) : Except ε (Outcome × Ledger κ ρ) :=
  if ident record ∈ ledger.operations.map ident then
    .ok (.duplicate, ledger)
  else
    match capacity with
    | .error error => .error error
    | .ok () =>
        match judge ledger.operations record with
        | .error error => .error error
        | .ok outcome =>
            if outcome = .applied ∧ storable ledger.winners record = false then
              .error constraint
            else
              .ok (outcome, ledger.append key outcome record)

/-- The cases in which a record is ingested without an error. -/
theorem ingest_eq_ok_iff
    {ident : ρ → ι}
    {storable : ExtTreeMap κ ρ → ρ → Bool}
    {constraint : ε}
    {capacity : Except ε Unit}
    {judge : List ρ → ρ → Except ε Outcome}
    {ledger next : Ledger κ ρ}
    {record : ρ}
    {outcome : Outcome} :
    ingest key ident storable constraint capacity judge ledger record =
        .ok (outcome, next) ↔
      (ident record ∈ ledger.operations.map ident ∧
          outcome = .duplicate ∧ next = ledger) ∨
        (ident record ∉ ledger.operations.map ident ∧ capacity = .ok () ∧
          judge ledger.operations record = .ok outcome ∧
          (outcome = .applied → storable ledger.winners record = true) ∧
          next = ledger.append key outcome record) := by
  unfold ingest
  by_cases logged : ident record ∈ ledger.operations.map ident
  · simp only [logged, if_true, Except.ok.injEq, Prod.mk.injEq, true_and,
      not_true_eq_false, false_and, or_false]
    exact ⟨fun ⟨first, second⟩ => ⟨first.symm, second.symm⟩,
      fun ⟨first, second⟩ => ⟨first.symm, second.symm⟩⟩
  · simp only [logged, if_false, false_and, not_false_eq_true, true_and, false_or]
    cases capacity with
    | error error => simp
    | ok _ =>
        cases judge ledger.operations record with
        | error error => simp
        | ok found =>
            simp only [true_and, Except.ok.injEq]
            split
            · rename_i unfit
              simp only [reduceCtorEq, false_iff]
              rintro ⟨rfl, fits, _⟩
              simp [fits unfit.1] at unfit
            · rename_i fits
              simp only [Except.ok.injEq, Prod.mk.injEq]
              constructor
              · rintro ⟨rfl, rfl⟩
                refine ⟨rfl, fun applied => ?_, rfl⟩
                simpa [applied] using fits
              · rintro ⟨rfl, _, rfl⟩
                exact ⟨rfl, rfl⟩

/-- The log of a sound ledger replays to its table of winners. -/
structure Sound (rules : Rules κ ρ Ω) (ident : ρ → ι) (ledger : Ledger κ ρ) :
    Prop where
  distinct : (ledger.operations.map ident).Nodup
  run : rules.Run Slots.empty ledger.operations (slotsOf ledger.winners)

variable {rules : Rules κ ρ Ω} {ident : ρ → ι} {ledger : Ledger κ ρ}

theorem sound_empty : (empty : Ledger κ ρ).Sound rules ident where
  distinct := by simp [empty]
  run := by
    rw [empty, slotsOf_empty]
    exact .nil

/-- Every winner stands under its own key. -/
theorem Sound.keyed (sound : ledger.Sound rules ident) :
    rules.Keyed (slotsOf ledger.winners) :=
  sound.run.keyed (by simp [Rules.Keyed, Slots.empty])

/-- Every winner is one of the logged operations. -/
theorem Sound.logged
    (sound : ledger.Sound rules ident)
    {key : κ}
    (stands : slotsOf ledger.winners key = some record) :
    record ∈ ledger.operations := by
  rcases sound.run.source stands with before | member
  · simp [Slots.empty] at before
  · exact member

/-- Logging an accepted record moves the winners by its step. -/
theorem winners_append_of_step
    (step : rules.Step (slotsOf ledger.winners) record outcome next) :
    slotsOf (ledger.append rules.key outcome record).winners = next := by
  cases step with
  | superseded => simp [Ledger.append]
  | applied => simp [Ledger.append]

/-- Logging an accepted record keeps a ledger sound. -/
theorem Sound.append
    (sound : ledger.Sound rules ident)
    (new : ident record ∉ ledger.operations.map ident)
    (step : rules.Step (slotsOf ledger.winners) record outcome next) :
    (ledger.append rules.key outcome record).Sound rules ident ∧
      slotsOf (ledger.append rules.key outcome record).winners = next := by
  have winners := winners_append_of_step step
  refine ⟨⟨?_, ?_⟩, winners⟩
  · simp only [Ledger.append, List.map_append, List.map_cons, List.map_nil]
    exact List.nodup_append.mpr ⟨sound.distinct, by simp, by
      rintro first member second single rfl
      rw [List.mem_singleton] at single
      exact new (single ▸ member)⟩
  · rw [winners]
    exact sound.run.concat step

/-- A logged record of a sound ledger is kept by a compaction when it stands. -/
theorem Sound.kept_iff
    (sound : ledger.Sound rules ident)
    (member : record ∈ ledger.operations) :
    ident record ∈ (valuesOf ledger.winners).map ident ↔
      slotsOf ledger.winners (rules.key record) = some record := by
  simp only [List.mem_map, mem_valuesOf]
  constructor
  · rintro ⟨winner, ⟨key, stands⟩, same⟩
    obtain rfl := List.inj_on_of_nodup_map sound.distinct (sound.logged stands) member same
    rwa [sound.keyed key winner stands]
  · exact fun stands => ⟨record, ⟨_, stands⟩, rfl⟩

/-- Compacting a sound ledger keeps it sound. -/
theorem Sound.compact
    (sound : ledger.Sound rules ident)
    (hereditary : rules.Hereditary) :
    (ledger.compact ident).Sound rules ident := by
  refine ⟨?_, ?_⟩
  · exact sound.distinct.sublist (List.filter_sublist.map ident)
  · apply sound.run.compact hereditary sound.distinct.of_map
    intro record member
    rw [decide_eq_true_eq, sound.kept_iff member]

/-- Compacting a sound ledger leaves each of its winners once in the log. -/
theorem Sound.compact_perm (sound : ledger.Sound rules ident) :
    (ledger.compact ident).operations.Perm (valuesOf ledger.winners) := by
  refine (List.perm_ext_iff_of_nodup (sound.distinct.of_map.filter _)
    (valuesOf_nodup sound.keyed)).mpr fun record => ?_
  rw [List.mem_filter, decide_eq_true_eq, mem_valuesOf]
  constructor
  · rintro ⟨member, kept⟩
    exact ⟨_, (sound.kept_iff member).mp kept⟩
  · rintro ⟨key, stands⟩
    refine ⟨sound.logged stands, (sound.kept_iff (sound.logged stands)).mpr ?_⟩
    rwa [sound.keyed key record stands]

@[simp] theorem compact_compact (ledger : Ledger κ ρ) (ident : ρ → ι) :
    (ledger.compact ident).compact ident = ledger.compact ident := by
  simp [compact]

/-- The ways in which a ledger takes a record: as a duplicate, or by a step of the
rules at its winners. -/
def Ingests
    (rules : Rules κ ρ Ω)
    (ident : ρ → ι)
    (storable : ExtTreeMap κ ρ → ρ → Bool)
    (capacity : Except ε Unit)
    (ledger : Ledger κ ρ)
    (record : ρ)
    (outcome : Outcome)
    (after : Ledger κ ρ) : Prop :=
  (ident record ∈ ledger.operations.map ident ∧ outcome = .duplicate ∧ after = ledger) ∨
    (ident record ∉ ledger.operations.map ident ∧ capacity = .ok () ∧
      (∃ slots, rules.Step (slotsOf ledger.winners) record outcome slots) ∧
      (outcome = .applied → storable ledger.winners record = true) ∧
      after = ledger.append rules.key outcome record)

section Ingested

variable {storable : ExtTreeMap κ ρ → ρ → Bool} {capacity : Except ε Unit}
variable {record : ρ} {outcome : Outcome} {after : Ledger κ ρ}

/-- Taking a record changes nothing or moves the winners by a step of the rules. -/
theorem Ingests.same_or_step
    (ingests : ledger.Ingests rules ident storable capacity record outcome after) :
    after = ledger ∨
      rules.Step (slotsOf ledger.winners) record outcome (slotsOf after.winners) := by
  rcases ingests with ⟨_, _, rfl⟩ | ⟨_, _, ⟨slots, step⟩, _, rfl⟩
  · exact Or.inl rfl
  · exact Or.inr (winners_append_of_step step ▸ step)

/-- Taking a record leaves what stands or puts in its place what may succeed it. -/
theorem Ingests.succeeded
    {succeeds : ρ → ρ → Prop}
    (ingests : ledger.Ingests rules ident storable capacity record outcome after)
    (refl : ∀ record, succeeds record record)
    (takes : ∀ current, slotsOf ledger.winners (rules.key record) = some current →
      rules.rank current < rules.rank record →
      ¬rules.Blocked (slotsOf ledger.winners) record → succeeds current record) :
    (slotsOf ledger.winners).Succeeded succeeds (slotsOf after.winners) := by
  rcases ingests.same_or_step with rfl | step
  · exact .refl refl _
  · exact step.succeeded succeeds refl takes

/-- What is logged after a record was taken was logged before, or it is the record
and no guard barred it. -/
theorem Ingests.logged_cases
    (ingests : ledger.Ingests rules ident storable capacity record outcome after)
    (member : other ∈ after.operations) :
    other ∈ ledger.operations ∨
      other = record ∧ ¬rules.Barred (slotsOf ledger.winners) record := by
  rcases ingests with ⟨_, _, rfl⟩ | ⟨_, _, ⟨slots, step⟩, _, rfl⟩
  · exact Or.inl member
  · rcases List.mem_append.mp member with before | last
    · exact Or.inl before
    · exact Or.inr ⟨List.mem_singleton.mp last, step.unbarred⟩

/-- What wins after a record was taken won before, or it is the record, which could
be stored and no guard barred. -/
theorem Ingests.winner_cases
    (ingests : ledger.Ingests rules ident storable capacity record outcome after)
    (stands : slotsOf after.winners key = some current) :
    slotsOf ledger.winners key = some current ∨
      current = record ∧ ¬rules.Barred (slotsOf ledger.winners) record ∧
        storable ledger.winners record = true := by
  rcases ingests with ⟨_, _, rfl⟩ | ⟨_, _, ⟨slots, step⟩, fits, rfl⟩
  · exact Or.inl stands
  · rw [winners_append_of_step step] at stands
    rcases step.source stands with before | ⟨applied, rfl, _⟩
    · exact Or.inl before
    · exact Or.inr ⟨rfl, step.unbarred, fits applied⟩

/-- What holds of the winners and of a record that fits holds of the winners after
the record was taken. -/
theorem Ingests.winners_of
    (ingests : ledger.Ingests rules ident (fun _ => fits) capacity record outcome after)
    (winners : ∀ key current, slotsOf ledger.winners key = some current →
      fits current = true) :
    ∀ key current, slotsOf after.winners key = some current → fits current = true := by
  intro key current stands
  rcases ingests.winner_cases stands with before | ⟨rfl, _, storable⟩
  · exact winners key current before
  · exact storable

end Ingested

section Refinement

variable {rebuild : List ρ → Except ε (RecordView κ ι ρ)}
variable {apply replayApply : RecordView κ ι ρ → ρ → Except ε (Outcome × RecordView κ ι ρ)}

/-- A sound ledger replays, and the view holds exactly its winners. -/
theorem Sound.replay
    (sound : ledger.Sound rules ident)
    (refines : RecordView.Refines rules ident replayApply) :
    ∃ view : RecordView κ ι ρ,
      RecordView.replay replayApply .empty ledger.operations = .ok view ∧
        view.records = ledger.winners ∧
        ∀ id, id ∈ view.recordIds ↔ id ∈ ledger.operations.map ident := by
  obtain ⟨view, replayed, records, ids⟩ :=
    refines.replay_of_run sound.distinct
      (fun _ _ => by simp : ∀ record ∈ ledger.operations,
        ident record ∉ (RecordView.empty : RecordView κ ι ρ).recordIds)
      (by simpa using sound.run)
  exact ⟨view, replayed, records, by simpa using ids⟩

/-- A view that holds the winners of a ledger judges a new record by the rules. -/
theorem judge_eq_ok_iff
    {offerRules : Rules κ ρ Ω}
    (refines : RecordView.Refines offerRules ident apply)
    (rebuilt : rebuild ledger.operations = .ok view)
    (records : view.records = ledger.winners)
    (ids : ∀ id, id ∈ view.recordIds ↔ id ∈ ledger.operations.map ident)
    {record : ρ}
    (new : ident record ∉ ledger.operations.map ident)
    (outcome : Outcome) :
    judge rebuild apply ledger.operations record = .ok outcome ↔
      ∃ next, offerRules.Step (slotsOf ledger.winners) record outcome next := by
  have slots : view.slots = slotsOf ledger.winners := by
    rw [RecordView.slots, records]
  have fresh : ident record ∉ view.recordIds := by
    rwa [ids]
  unfold judge
  simp only [rebuilt]
  constructor
  · intro judged
    cases applied : apply view record with
    | error error => simp [applied, Except.map] at judged
    | ok result =>
        obtain ⟨found, next⟩ := result
        simp only [applied, Except.map, Except.ok.injEq] at judged
        subst judged
        have step := ((refines.fresh fresh found next).mp applied).1
        exact ⟨next.slots, slots ▸ step⟩
  · rintro ⟨next, step⟩
    obtain ⟨nextRecords, rfl⟩ := RecordView.exists_slotsOf_of_step step
    have applied := (refines.fresh fresh outcome
      ⟨nextRecords, view.recordIds.insert (ident record)⟩).mpr ⟨slots ▸ step, rfl⟩
    simp [applied, Except.map]

/-- When a log rebuilds to a view that holds the winners, a record is ingested as
a duplicate or by a step of the rules at the winners.  The ledger may be part of
a larger state. -/
theorem ingest_judge_eq_ok_iff {δ σ : Type*}
    (put : Ledger κ ρ → σ)
    (rebuild : List ρ → Except ε (RecordView κ ι ρ))
    {wrap : ε → δ}
    {constraint : δ}
    {capacity : Except δ Unit}
    {offerRules : Rules κ ρ Ω}
    (refines : RecordView.Refines offerRules ident apply)
    {view : RecordView κ ι ρ}
    (rebuilt : rebuild ledger.operations = .ok view)
    (records : view.records = ledger.winners)
    (ids : ∀ id, id ∈ view.recordIds ↔ id ∈ ledger.operations.map ident)
    {record : ρ}
    {outcome : Outcome}
    {next : σ} :
    (ingest offerRules.key ident storable constraint capacity
        (fun log record => (judge rebuild apply log record).mapError wrap) ledger record).map
          (fun result => (result.1, put result.2)) = .ok (outcome, next) ↔
      ∃ after, ledger.Ingests offerRules ident storable capacity record outcome after ∧
        next = put after := by
  have judged : ident record ∉ ledger.operations.map ident → ∀ outcome,
      judge rebuild apply ledger.operations record = .ok outcome ↔
        ∃ slots, offerRules.Step (slotsOf ledger.winners) record outcome slots :=
    judge_eq_ok_iff refines rebuilt records ids
  simp only [Fallible.map_eq_ok_iff, Prod.exists, Prod.mk.injEq, ingest_eq_ok_iff,
    Fallible.mapError_eq_ok_iff]
  constructor
  · rintro ⟨found, after, ⟨seen, rfl, rfl⟩ | ⟨new, room, accepted, fits, rfl⟩, rfl, rfl⟩
    · exact ⟨_, Or.inl ⟨seen, rfl, rfl⟩, rfl⟩
    · exact ⟨_, Or.inr ⟨new, room, (judged new found).mp accepted, fits, rfl⟩, rfl⟩
  · rintro ⟨after, ⟨seen, rfl, rfl⟩ | ⟨new, room, step, fits, rfl⟩, rfl⟩
    · exact ⟨_, _, Or.inl ⟨seen, rfl, rfl⟩, rfl, rfl⟩
    · exact ⟨_, _, Or.inr ⟨new, room, (judged new outcome).mpr step, fits, rfl⟩, rfl, rfl⟩

end Refinement

section Mirror

/-- A ledger that has forgotten operations of another but none of its winners. -/
structure Mirrors (plain compacted : Ledger κ ρ) : Prop where
  winners : compacted.winners = plain.winners
  operations : compacted.operations ⊆ plain.operations

theorem Mirrors.refl (ledger : Ledger κ ρ) : ledger.Mirrors ledger :=
  ⟨rfl, fun _ => id⟩

theorem Mirrors.compact
    {plain compacted : Ledger κ ρ}
    (mirrors : plain.Mirrors compacted)
    (ident : ρ → ι) :
    plain.Mirrors (compacted.compact ident) :=
  ⟨mirrors.winners, fun _ member => mirrors.operations (List.mem_of_mem_filter member)⟩

variable {plain compacted : Ledger κ ρ} {record : ρ}
variable {storable : ExtTreeMap κ ρ → ρ → Bool} {capacity capacity' : Except ε Unit}

theorem Mirrors.append
    (mirrors : plain.Mirrors compacted)
    (key : ρ → κ)
    (outcome : Outcome) :
    (plain.append key outcome record).Mirrors (compacted.append key outcome record) := by
  refine ⟨by simp only [Ledger.append, mirrors.winners], ?_⟩
  intro other member
  simp only [Ledger.append, List.mem_append] at member ⊢
  exact member.imp_left fun early => mirrors.operations early

/-- A record that the plain ledger has logged cannot win in its mirror. -/
theorem Mirrors.superseded_of_logged
    {offerRules : Rules κ ρ Ω}
    (mirrors : plain.Mirrors compacted)
    (sound : plain.Sound rules ident)
    (key_eq : offerRules.key = rules.key)
    (rank_eq : offerRules.rank = rules.rank)
    (logged : record ∈ plain.operations)
    {slots : Slots κ ρ}
    (step : offerRules.Step (slotsOf compacted.winners) record outcome slots) :
    outcome = .superseded := by
  cases step with
  | superseded => rfl
  | applied _ outranks _ =>
      obtain ⟨current, stands, bound⟩ := sound.run.dominates logged
      rw [mirrors.winners, key_eq, rank_eq] at outranks
      exact absurd (outranks current stands) bound.not_gt

/-- What the plain ledger does with a record its mirror can do as well. -/
theorem Mirrors.ingests_of_plain
    {offerRules : Rules κ ρ Ω}
    (mirrors : plain.Mirrors compacted)
    {after : Ledger κ ρ}
    (ingests : plain.Ingests offerRules ident storable capacity record outcome after)
    (room : capacity' = .ok ())
    (new : ident record ∉ plain.operations.map ident) :
    ∃ mirrored, compacted.Ingests offerRules ident storable capacity' record outcome mirrored ∧
      after.Mirrors mirrored := by
  rcases ingests with ⟨seen, _⟩ | ⟨_, _, step, fits, rfl⟩
  · exact absurd seen new
  · refine ⟨_, Or.inr ⟨?_, room, mirrors.winners ▸ step, mirrors.winners ▸ fits, rfl⟩,
      mirrors.append _ _⟩
    intro seen
    obtain ⟨other, member, same⟩ := List.mem_map.mp seen
    exact new (List.mem_map.mpr ⟨other, mirrors.operations member, same⟩)

/-- What the mirror does with a record that is new to the plain ledger, the plain
ledger does as well. -/
theorem Mirrors.ingests_of_compacted
    {offerRules : Rules κ ρ Ω}
    (mirrors : plain.Mirrors compacted)
    {mirrored : Ledger κ ρ}
    (ingests : compacted.Ingests offerRules ident storable capacity' record outcome mirrored)
    (room : capacity = .ok ())
    (new : ident record ∉ plain.operations.map ident) :
    ∃ after, plain.Ingests offerRules ident storable capacity record outcome after ∧
      after.Mirrors mirrored := by
  rcases ingests with ⟨seen, _⟩ | ⟨_, _, step, fits, rfl⟩
  · obtain ⟨other, member, same⟩ := List.mem_map.mp seen
    exact absurd (List.mem_map.mpr ⟨other, mirrors.operations member, same⟩) new
  · exact ⟨_, Or.inr ⟨new, room, mirrors.winners ▸ step, mirrors.winners ▸ fits, rfl⟩,
      mirrors.append _ _⟩

/-- A record that the plain ledger has logged leaves both winners as they are. -/
theorem Mirrors.ingests_of_logged
    {offerRules : Rules κ ρ Ω}
    (mirrors : plain.Mirrors compacted)
    (sound : plain.Sound rules ident)
    (key_eq : offerRules.key = rules.key)
    (rank_eq : offerRules.rank = rules.rank)
    (logged : record ∈ plain.operations)
    {mirrored : Ledger κ ρ}
    (ingests : compacted.Ingests offerRules ident storable capacity' record outcome mirrored) :
    outcome ≠ .applied ∧ plain.Mirrors mirrored := by
  rcases ingests with ⟨_, rfl, rfl⟩ | ⟨_, _, ⟨slots, step⟩, _, rfl⟩
  · exact ⟨by simp, mirrors⟩
  · obtain rfl := mirrors.superseded_of_logged sound key_eq rank_eq logged step
    refine ⟨by simp, by simp [Ledger.append, mirrors.winners], ?_⟩
    intro other member
    simp only [Ledger.append, List.mem_append, List.mem_singleton] at member
    rcases member with member | rfl
    · exact mirrors.operations member
    · exact logged

/-- Ingesting a record into a ledger and into its mirror applies it in both or in
neither, and mirrors the results.  The ledgers may be parts of larger states. -/
theorem Mirrors.keep {σ : Type*}
    (mirrors : plain.Mirrors compacted)
    (offerRules : Rules κ ρ Ω)
    (sound : plain.Sound rules ident)
    (key_eq : offerRules.key = rules.key)
    (rank_eq : offerRules.rank = rules.rank)
    (injective : ∀ other ∈ plain.operations, ident other = ident record → other = record)
    (room : capacity = .ok ())
    (room' : capacity' = .ok ())
    (putPlain putCompacted : Ledger κ ρ → σ)
    (plainResult compactedResult : Except ε (Outcome × σ))
    (plainSpec : ∀ outcome next, plainResult = .ok (outcome, next) ↔
      ∃ after, plain.Ingests offerRules ident storable capacity record outcome after ∧
        next = putPlain after)
    (compactedSpec : ∀ outcome next, compactedResult = .ok (outcome, next) ↔
      ∃ after, compacted.Ingests offerRules ident storable capacity' record outcome after ∧
        next = putCompacted after) :
    applies plainResult = applies compactedResult ∧
      ∃ plainAfter compactedAfter : Ledger κ ρ, plainAfter.Mirrors compactedAfter ∧
        Fallible.keep (putPlain plain) plainResult = putPlain plainAfter ∧
        Fallible.keep (putCompacted compacted) compactedResult =
          putCompacted compactedAfter := by
  by_cases seen : ident record ∈ plain.operations.map ident
  · obtain ⟨other, logged, same⟩ := List.mem_map.mp seen
    obtain rfl := injective other logged same
    have plainResult_eq : plainResult = .ok (.duplicate, putPlain plain) :=
      (plainSpec _ _).mpr ⟨plain, Or.inl ⟨seen, rfl, rfl⟩, rfl⟩
    subst plainResult_eq
    cases compactedResult with
    | error error => exact ⟨rfl, plain, compacted, mirrors, rfl, rfl⟩
    | ok result =>
        obtain ⟨outcome, next⟩ := result
        obtain ⟨after, ingests, rfl⟩ := (compactedSpec outcome next).mp rfl
        obtain ⟨unapplied, mirrored⟩ :=
          mirrors.ingests_of_logged sound key_eq rank_eq logged ingests
        exact ⟨by simp [applies, unapplied], plain, after, mirrored, rfl, rfl⟩
  · cases plainResult with
    | error error =>
        cases compactedResult with
        | error error => exact ⟨rfl, plain, compacted, mirrors, rfl, rfl⟩
        | ok result =>
            obtain ⟨after, ingests, _⟩ := (compactedSpec result.1 result.2).mp rfl
            obtain ⟨mirrored, plainIngests, _⟩ := mirrors.ingests_of_compacted ingests room seen
            exact absurd ((plainSpec result.1 _).mpr ⟨mirrored, plainIngests, rfl⟩) (by simp)
    | ok result =>
        obtain ⟨outcome, next⟩ := result
        obtain ⟨after, ingests, rfl⟩ := (plainSpec outcome next).mp rfl
        obtain ⟨mirrored, compactedIngests, mirrorsAfter⟩ :=
          mirrors.ingests_of_plain ingests room' seen
        have compactedResult_eq : compactedResult = .ok (outcome, putCompacted mirrored) :=
          (compactedSpec _ _).mpr ⟨mirrored, compactedIngests, rfl⟩
        subst compactedResult_eq
        exact ⟨rfl, after, mirrored, mirrorsAfter, rfl, rfl⟩

end Mirror

end Ledger

end Replication
