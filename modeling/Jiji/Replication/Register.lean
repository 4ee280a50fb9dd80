import Mathlib

/-!
# Ranked registers

A register file keeps at most one record in each slot.  A record names its
slot by a key and competes for it by a rank: the record of larger rank stands.
Two guards may refuse a record.  The first is consulted before ranks are
compared, the second only when the record would otherwise take its slot.

Replaying a log offers its records one after another.  The central result is
that a log may be compacted to the records still standing at its end: the
compacted log replays without refusal and reaches the same register file,
provided that removing standing records never causes a refusal.
-/

namespace Replication

/-- What a register file does with a record that it does not refuse. -/
inductive Outcome
  | applied
  | duplicate
  | superseded
  deriving DecidableEq, Repr

/-- A register file: the record standing in each slot. -/
abbrev Slots (κ ρ : Type*) := κ → Option ρ

namespace Slots

variable {κ ρ : Type*}

/-- The register file in which no record stands. -/
def empty : Slots κ ρ := fun _ => none

/-- Every record of the smaller file stands in the same slot of the larger. -/
def Sub (smaller larger : Slots κ ρ) : Prop :=
  ∀ slot record, smaller slot = some record → larger slot = some record

/-- What stands in a slot of the earlier file still stands in the later one, or what
may succeed it does. -/
def Succeeded (succeeds : ρ → ρ → Prop) (earlier later : Slots κ ρ) : Prop :=
  ∀ slot current, earlier slot = some current →
    ∃ record, later slot = some record ∧ succeeds current record

theorem Succeeded.refl
    {succeeds : ρ → ρ → Prop}
    (refl : ∀ record, succeeds record record)
    (slots : Slots κ ρ) :
    slots.Succeeded succeeds slots :=
  fun _ current stands => ⟨current, stands, refl current⟩

theorem Succeeded.trans
    {succeeds : ρ → ρ → Prop}
    {earlier middle later : Slots κ ρ}
    (trans : ∀ first second third, succeeds first second → succeeds second third →
      succeeds first third)
    (before : earlier.Succeeded succeeds middle)
    (after : middle.Succeeded succeeds later) :
    earlier.Succeeded succeeds later := by
  intro slot current stands
  obtain ⟨next, standsNext, follows⟩ := before slot current stands
  obtain ⟨last, standsLast, followsLast⟩ := after slot next standsNext
  exact ⟨last, standsLast, trans _ _ _ follows followsLast⟩

/-- Forget every slot on which a file differs from a reference file. -/
noncomputable def agreeing (reference slots : Slots κ ρ) : Slots κ ρ := by
  classical
  exact fun slot => if slots slot = reference slot then slots slot else none

theorem agreeing_sub (reference slots : Slots κ ρ) :
    (agreeing reference slots).Sub slots := by
  intro slot record stands
  unfold agreeing at stands
  split at stands
  · exact stands
  · simp at stands

theorem agreeing_of_eq
    (equal : slots slot = reference slot) :
    agreeing reference slots slot = reference slot := by
  simp [agreeing, equal]

theorem agreeing_of_ne
    (different : slots slot ≠ reference slot) :
    agreeing reference slots slot = none := by
  simp [agreeing, different]

/-- Writing the reference value into a slot restores it in the agreeing part. -/
theorem agreeing_update_of_eq [DecidableEq κ]
    (reference slots : Slots κ ρ)
    (slot : κ) :
    agreeing reference (Function.update slots slot (reference slot)) =
      Function.update (agreeing reference slots) slot (reference slot) := by
  funext other
  by_cases same : other = slot
  · subst same
    rw [agreeing_of_eq (by simp), Function.update_self]
  · unfold agreeing
    rw [Function.update_of_ne same, Function.update_of_ne same]

/-- Writing into a slot that disagrees before and after changes nothing. -/
theorem agreeing_update_of_ne [DecidableEq κ]
    {slot : κ}
    {value : Option ρ}
    (after : value ≠ reference slot)
    (before : slots slot ≠ reference slot) :
    agreeing reference (Function.update slots slot value) =
      agreeing reference slots := by
  funext other
  by_cases same : other = slot
  · subst same
    rw [agreeing_of_ne before, agreeing_of_ne (by simpa using after)]
  · unfold agreeing
    rw [Function.update_of_ne same]

@[simp] theorem agreeing_self (slots : Slots κ ρ) :
    agreeing slots slots = slots := by
  funext slot
  exact agreeing_of_eq rfl

@[simp] theorem agreeing_empty (reference : Slots κ ρ) :
    agreeing reference empty = empty := by
  funext slot
  unfold agreeing empty
  split <;> rfl

end Slots

/-- The data that decide how a register file treats an offered record. -/
structure Rules (κ ρ Ω : Type*) where
  /-- The slot a record competes for. -/
  key : ρ → κ
  /-- The strength with which it competes. -/
  rank : ρ → Ω
  /-- Refused before its rank is looked at. -/
  Barred : Slots κ ρ → ρ → Prop
  /-- Refused although its rank would win the slot. -/
  Blocked : Slots κ ρ → ρ → Prop

namespace Rules

variable {κ ρ Ω : Type*} [DecidableEq κ] [LinearOrder Ω]

/-- One accepted offer, with the outcome reported for it. -/
inductive Step (rules : Rules κ ρ Ω) :
    Slots κ ρ → ρ → Outcome → Slots κ ρ → Prop
  | superseded {slots : Slots κ ρ} {record current : ρ} :
      ¬rules.Barred slots record →
      slots (rules.key record) = some current →
      rules.rank record ≤ rules.rank current →
      Step rules slots record .superseded slots
  | applied {slots : Slots κ ρ} {record : ρ} :
      ¬rules.Barred slots record →
      (∀ current, slots (rules.key record) = some current →
        rules.rank current < rules.rank record) →
      ¬rules.Blocked slots record →
      Step rules slots record .applied
        (Function.update slots (rules.key record) (some record))

/-- A log replayed without any refusal. -/
inductive Run (rules : Rules κ ρ Ω) : Slots κ ρ → List ρ → Slots κ ρ → Prop
  | nil {slots : Slots κ ρ} : Run rules slots [] slots
  | cons {slots next final : Slots κ ρ} {record : ρ} {outcome : Outcome}
      {log : List ρ} :
      Step rules slots record outcome next →
      Run rules next log final →
      Run rules slots (record :: log) final

/-- Every standing record stands in the slot that its key names. -/
def Keyed (rules : Rules κ ρ Ω) (slots : Slots κ ρ) : Prop :=
  ∀ slot record, slots slot = some record → rules.key record = slot

/-- Removing standing records never causes a refusal. -/
structure Hereditary (rules : Rules κ ρ Ω) : Prop where
  barred : ∀ {smaller larger : Slots κ ρ} {record : ρ},
    smaller.Sub larger → rules.Barred smaller record → rules.Barred larger record
  blocked : ∀ {smaller larger : Slots κ ρ} {record : ρ},
    smaller.Sub larger → rules.Blocked smaller record → rules.Blocked larger record

section Steps

variable {rules : Rules κ ρ Ω} {slots next : Slots κ ρ} {record : ρ} {outcome : Outcome}

/-- When every record that takes a slot may succeed the one it replaces, a step leaves
what stands or puts in its place what may succeed it. -/
theorem Step.succeeded
    (step : rules.Step slots record outcome next)
    (succeeds : ρ → ρ → Prop)
    (refl : ∀ record, succeeds record record)
    (takes : ∀ current, slots (rules.key record) = some current →
      rules.rank current < rules.rank record → ¬rules.Blocked slots record →
      succeeds current record) :
    slots.Succeeded succeeds next := by
  cases step with
  | superseded => exact .refl refl _
  | applied _ outranks unblocked =>
      intro slot current stands
      by_cases same : slot = rules.key record
      · subst same
        exact ⟨record, by simp, takes current stands (outranks current stands) unblocked⟩
      · exact ⟨current, by simp [Function.update_of_ne same, stands], refl current⟩

/-- A standing record is only ever replaced by one of larger rank. -/
theorem Step.rises
    (step : rules.Step slots record outcome next)
    (standing : slots slot = some current) :
    ∃ later, next slot = some later ∧
      (later = current ∨ rules.rank current < rules.rank later) :=
  step.succeeded (fun current later => later = current ∨ rules.rank current < rules.rank later)
    (fun _ => Or.inl rfl) (fun _ _ outranks _ => Or.inr outranks) slot current standing

/-- After an accepted offer the slot holds a record at least as strong. -/
theorem Step.stands
    (step : rules.Step slots record outcome next) :
    ∃ current, next (rules.key record) = some current ∧
      rules.rank record ≤ rules.rank current := by
  cases step with
  | superseded _ standing outranked => exact ⟨_, standing, outranked⟩
  | applied => exact ⟨record, by simp, le_rfl⟩

/-- A record that stands after a step stood before it or was just applied. -/
theorem Step.source
    (step : rules.Step slots record outcome next)
    (standing : next slot = some current) :
    slots slot = some current ∨
      (outcome = .applied ∧ current = record ∧ slot = rules.key record) := by
  cases step with
  | superseded => exact Or.inl standing
  | applied =>
      by_cases same : slot = rules.key record
      · subst same
        simp only [Function.update_self, Option.some.injEq] at standing
        exact Or.inr ⟨rfl, standing.symm, rfl⟩
      · rw [Function.update_of_ne same] at standing
        exact Or.inl standing

/-- Slots other than the one named by the record are left alone. -/
theorem Step.frame
    (step : rules.Step slots record outcome next)
    (other : slot ≠ rules.key record) :
    next slot = slots slot := by
  cases step with
  | superseded => rfl
  | applied => exact Function.update_of_ne other _ _

theorem Step.unbarred (step : rules.Step slots record outcome next) :
    ¬rules.Barred slots record := by
  cases step with
  | superseded admitted => exact admitted
  | applied admitted => exact admitted

/-- A record is refused by one of the guards or takes a step. -/
theorem refused_or_step
    (rules : Rules κ ρ Ω)
    (slots : Slots κ ρ)
    (record : ρ) :
    (rules.Barred slots record ∨
      rules.Blocked slots record ∧
        ∀ current, slots (rules.key record) = some current →
          rules.rank current < rules.rank record) ∨
      ∃ outcome next, rules.Step slots record outcome next := by
  by_cases barred : rules.Barred slots record
  · exact Or.inl (Or.inl barred)
  · by_cases outranks : ∀ current, slots (rules.key record) = some current →
        rules.rank current < rules.rank record
    · by_cases blocked : rules.Blocked slots record
      · exact Or.inl (Or.inr ⟨blocked, outranks⟩)
      · exact Or.inr ⟨_, _, .applied barred outranks blocked⟩
    · push Not at outranks
      obtain ⟨current, stands, outranked⟩ := outranks
      exact Or.inr ⟨_, _, .superseded barred stands outranked⟩

theorem Step.keyed
    (step : rules.Step slots record outcome next)
    (keyed : rules.Keyed slots) :
    rules.Keyed next := by
  intro slot current standing
  rcases step.source standing with before | ⟨_, rfl, rfl⟩
  · exact keyed slot current before
  · rfl

end Steps

section Runs

variable {rules : Rules κ ρ Ω} {slots middle final : Slots κ ρ} {log : List ρ}

theorem Run.append
    (first : rules.Run slots log middle)
    (second : rules.Run middle later final) :
    rules.Run slots (log ++ later) final := by
  induction first with
  | nil => exact second
  | cons step _ inductionHypothesis =>
      exact .cons step (inductionHypothesis second)

/-- Extend a replayed log by one accepted record. -/
theorem Run.concat
    (run : rules.Run slots log middle)
    (step : rules.Step middle record outcome final) :
    rules.Run slots (log ++ [record]) final :=
  run.append (.cons step .nil)

/-- Along a replay each slot only moves up in rank. -/
theorem Run.rises
    (run : rules.Run slots log final)
    (standing : slots slot = some current) :
    ∃ later, final slot = some later ∧
      (later = current ∨ rules.rank current < rules.rank later) := by
  induction run generalizing current with
  | nil => exact ⟨current, standing, Or.inl rfl⟩
  | cons step _ inductionHypothesis =>
      obtain ⟨between, stands, first⟩ := step.rises standing
      obtain ⟨later, laterStands, second⟩ := inductionHypothesis stands
      refine ⟨later, laterStands, ?_⟩
      rcases first with rfl | first
      · exact second
      · rcases second with rfl | second
        · exact Or.inr first
        · exact Or.inr (first.trans second)

/-- Every record of a replayed log is matched in rank by its slot. -/
theorem Run.dominates
    (run : rules.Run slots log final)
    (member : record ∈ log) :
    ∃ current, final (rules.key record) = some current ∧
      rules.rank record ≤ rules.rank current := by
  induction run with
  | nil => simp at member
  | cons step rest inductionHypothesis =>
      rcases List.mem_cons.mp member with rfl | member
      · obtain ⟨current, stands, bound⟩ := step.stands
        obtain ⟨later, laterStands, rise⟩ := rest.rises stands
        refine ⟨later, laterStands, bound.trans ?_⟩
        rcases rise with rfl | rise
        · exact le_rfl
        · exact rise.le
      · exact inductionHypothesis member

/-- A record standing after a replay stood before it or is in the log. -/
theorem Run.source
    (run : rules.Run slots log final)
    (standing : final slot = some record) :
    slots slot = some record ∨ record ∈ log := by
  induction run with
  | nil => exact Or.inl standing
  | cons step _ inductionHypothesis =>
      rcases inductionHypothesis standing with before | member
      · rcases step.source before with before | ⟨_, rfl, _⟩
        · exact Or.inl before
        · exact Or.inr List.mem_cons_self
      · exact Or.inr (List.mem_cons_of_mem _ member)

/-- The first guard let every record of a replayed log pass. -/
theorem Run.unbarred
    (run : rules.Run slots log final)
    (member : record ∈ log) :
    ∃ slots, ¬rules.Barred slots record := by
  induction run with
  | nil => simp at member
  | cons step _ inductionHypothesis =>
      rcases List.mem_cons.mp member with rfl | member
      · exact ⟨_, step.unbarred⟩
      · exact inductionHypothesis member

theorem Run.keyed
    (run : rules.Run slots log final)
    (keyed : rules.Keyed slots) :
    rules.Keyed final := by
  induction run with
  | nil => exact keyed
  | cons step _ inductionHypothesis =>
      exact inductionHypothesis (step.keyed keyed)

end Runs

section Overlays

variable {rules : Rules κ ρ Ω} {slots next final : Slots κ ρ} {log : List ρ}
variable {record : ρ} {outcome : Outcome}

/-- The later of a record and the one that stands in its slot. -/
def settle (rules : Rules κ ρ Ω) (slots : Slots κ ρ) (record : ρ) : Slots κ ρ :=
  match slots (rules.key record) with
  | none => Function.update slots (rules.key record) (some record)
  | some current =>
      if rules.rank record ≤ rules.rank current then slots
      else Function.update slots (rules.key record) (some record)

/-- For each slot the latest of the standing record and the records of a log. -/
def overlay (rules : Rules κ ρ Ω) (slots : Slots κ ρ) (log : List ρ) : Slots κ ρ :=
  log.foldl rules.settle slots

@[simp] theorem overlay_nil : rules.overlay slots [] = slots := rfl

@[simp] theorem overlay_cons :
    rules.overlay slots (record :: log) = rules.overlay (rules.settle slots record) log :=
  rfl

theorem settle_of_outranked
    (stands : slots (rules.key record) = some current)
    (outranked : rules.rank record ≤ rules.rank current) :
    rules.settle slots record = slots := by
  simp [settle, stands, outranked]

theorem settle_of_outranks
    (outranks : ∀ current, slots (rules.key record) = some current →
      rules.rank current < rules.rank record) :
    rules.settle slots record =
      Function.update slots (rules.key record) (some record) := by
  unfold settle
  split
  · rfl
  · rename_i current stands
    rw [if_neg (outranks current stands).not_ge]

theorem settle_rises
    (stands : slots slot = some current) :
    ∃ later, rules.settle slots record slot = some later ∧
      rules.rank current ≤ rules.rank later := by
  by_cases outranks : ∀ current, slots (rules.key record) = some current →
      rules.rank current < rules.rank record
  · rw [settle_of_outranks outranks]
    by_cases same : slot = rules.key record
    · subst same
      exact ⟨record, Function.update_self _ _ _, (outranks current stands).le⟩
    · exact ⟨current, (Function.update_of_ne same _ _).trans stands, le_rfl⟩
  · push Not at outranks
    obtain ⟨holder, holds, outranked⟩ := outranks
    rw [settle_of_outranked holds outranked]
    exact ⟨current, stands, le_rfl⟩

/-- Laying records over a register file only moves its slots up in rank. -/
theorem overlay_rises
    (stands : slots slot = some current) :
    ∃ later, rules.overlay slots log slot = some later ∧
      rules.rank current ≤ rules.rank later := by
  induction log generalizing slots current with
  | nil => exact ⟨current, stands, le_rfl⟩
  | cons record log inductionHypothesis =>
      obtain ⟨between, betweenStands, first⟩ :
          ∃ between, rules.settle slots record slot = some between ∧ _ := settle_rises stands
      obtain ⟨later, laterStands, second⟩ := inductionHypothesis betweenStands
      exact ⟨later, laterStands, first.trans second⟩

/-- A step settles its record. -/
theorem Step.eq_settle (step : rules.Step slots record outcome next) :
    next = rules.settle slots record := by
  cases step with
  | superseded _ stands outranked => exact (settle_of_outranked stands outranked).symm
  | applied _ outranks => exact (settle_of_outranks outranks).symm

/-- The guards let a record pass, and it fits wherever it would be stored. -/
def Accepts (rules : Rules κ ρ Ω) (fits : ρ → Bool) (slots : Slots κ ρ) (record : ρ) :
    Prop :=
  ¬rules.Barred slots record ∧
    ((∀ current, slots (rules.key record) = some current →
      rules.rank current < rules.rank record) →
        ¬rules.Blocked slots record ∧ fits record = true)

theorem accepts_iff {fits : ρ → Bool} :
    rules.Accepts fits slots record ↔
      ∃ outcome, (∃ next, rules.Step slots record outcome next) ∧
        (outcome = .applied → fits record = true) := by
  constructor
  · rintro ⟨admitted, lawful⟩
    by_cases outranks : ∀ current, slots (rules.key record) = some current →
        rules.rank current < rules.rank record
    · obtain ⟨unblocked, storable⟩ := lawful outranks
      exact ⟨.applied, ⟨_, .applied admitted outranks unblocked⟩, fun _ => storable⟩
    · push Not at outranks
      obtain ⟨current, stands, outranked⟩ := outranks
      exact ⟨.superseded, ⟨_, .superseded admitted stands outranked⟩, by simp⟩
  · rintro ⟨outcome, ⟨next, step⟩, storable⟩
    cases step with
    | superseded admitted stands outranked =>
        exact ⟨admitted, fun outranks => absurd outranked (outranks _ stands).not_ge⟩
    | applied admitted _ unblocked => exact ⟨admitted, fun _ => ⟨unblocked, storable rfl⟩⟩

end Overlays

section Compaction

variable {rules : Rules κ ρ Ω} {slots final : Slots κ ρ} {log : List ρ}

/-- Replaying only the records that stand at the end of a log, on top of the
part of the starting file that already agrees with the end, reaches that end.
The freshness hypothesis says that no record is offered while it stands. -/
theorem Run.compact_from
    (hereditary : rules.Hereditary)
    {keep : ρ → Bool}
    (run : rules.Run slots log final)
    (distinct : log.Nodup)
    (fresh : ∀ record ∈ log, slots (rules.key record) ≠ some record)
    (keeps : ∀ record ∈ log,
      keep record = true ↔ final (rules.key record) = some record) :
    rules.Run (Slots.agreeing final slots) (log.filter keep) final := by
  induction run with
  | nil => simpa using Run.nil
  | @cons slots next final record outcome log step rest inductionHypothesis =>
      have freshNext : ∀ other ∈ log, next (rules.key other) ≠ some other := by
        intro other member stands
        rcases step.source stands with before | ⟨_, rfl, _⟩
        · exact fresh other (List.mem_cons_of_mem _ member) before
        · exact (List.nodup_cons.mp distinct).1 member
      have tail := inductionHypothesis (List.nodup_cons.mp distinct).2 freshNext
        (fun other member => keeps other (List.mem_cons_of_mem _ member))
      have headKeeps := keeps record List.mem_cons_self
      cases step with
      | superseded admitted stands outranked =>
          have dropped : ¬keep record = true := by
            intro kept
            obtain ⟨later, laterStands, rise⟩ := rest.rises stands
            rw [headKeeps.mp kept, Option.some.injEq] at laterStands
            subst laterStands
            rcases rise with rfl | rise
            · exact fresh record List.mem_cons_self stands
            · exact absurd rise outranked.not_gt
          rw [List.filter_cons_of_neg dropped]
          exact tail
      | applied admitted outranks unblocked =>
          have replaced : slots (rules.key record) ≠ final (rules.key record) := by
            intro equal
            obtain ⟨later, laterStands, rise⟩ :=
              rest.rises (Function.update_self (rules.key record) (some record) slots)
            have bound := outranks later (equal.trans laterStands)
            rcases rise with rfl | rise
            · exact lt_irrefl _ bound
            · exact lt_asymm bound rise
          by_cases kept : keep record = true
          · have stands : final (rules.key record) = some record := headKeeps.mp kept
            have smaller := Slots.agreeing_sub final slots
            rw [List.filter_cons_of_pos kept]
            refine .cons (.applied (fun barred => admitted (hereditary.barred smaller barred))
              (by simp [Slots.agreeing_of_ne replaced])
              (fun blocked => unblocked (hereditary.blocked smaller blocked))) ?_
            rwa [← stands, ← Slots.agreeing_update_of_eq, stands]
          · rw [List.filter_cons_of_neg kept]
            rwa [Slots.agreeing_update_of_ne] at tail
            · exact fun equal => kept (headKeeps.mpr equal.symm)
            · exact replaced

/-- A log may be cut down to the records that stand at its end. -/
theorem Run.compact
    (hereditary : rules.Hereditary)
    (run : rules.Run Slots.empty log final)
    (distinct : log.Nodup)
    (keeps : ∀ record ∈ log,
      keep record = true ↔ final (rules.key record) = some record) :
    rules.Run Slots.empty (log.filter keep) final := by
  have compacted := run.compact_from hereditary distinct (by simp [Slots.empty]) keeps
  simpa using compacted

end Compaction

end Rules

end Replication
