import Jiji.Replication.Ledger

/-!
# Batches of records

A ledger takes the records of a batch one after another.  While none of them is
refused, its winners are the latest of the old winners and the records taken so
far, so whether a batch is taken is a condition on the ledger and the batch.
-/

set_option linter.unusedSectionVars false

namespace Replication

open Std

variable {κ ι ρ ε Ω : Type*}
variable [Ord κ] [TransOrd κ] [LawfulEqOrd κ] [DecidableEq κ]
variable [Ord ι] [TransOrd ι] [LawfulEqOrd ι] [DecidableEq ι]
variable [LinearOrder Ω]

namespace Ledger

/-- A ledger takes the records of a batch in turn; the capacity of each write is
given by its position. -/
inductive Takes
    (rules : Rules κ ρ Ω)
    (ident : ρ → ι)
    (fits : ρ → Bool)
    (capacity : ℕ → Except ε Unit) :
    ℕ → Ledger κ ρ → List ρ → Ledger κ ρ → Prop
  | nil {position : ℕ} {ledger : Ledger κ ρ} :
      Takes rules ident fits capacity position ledger [] ledger
  | cons {position : ℕ} {ledger next final : Ledger κ ρ} {record : ρ}
      {outcome : Outcome} {batch : List ρ} :
      ledger.Ingests rules ident (fun _ => fits) (capacity position) record outcome next →
      Takes rules ident fits capacity (position + 1) next batch final →
      Takes rules ident fits capacity position ledger (record :: batch) final

/-- Every logged record is matched in rank by the winner of its key. -/
def Dominated (rules : Rules κ ρ Ω) (ledger : Ledger κ ρ) : Prop :=
  ∀ record ∈ ledger.operations, ∃ current,
    slotsOf ledger.winners (rules.key record) = some current ∧
      rules.rank record ≤ rules.rank current

/-- A record is taken after the earlier records of its batch: it is already
logged, or there is capacity and the guards let it pass. -/
def Admits
    (rules : Rules κ ρ Ω)
    (ident : ρ → ι)
    (fits : ρ → Bool)
    (capacity : ℕ → Except ε Unit)
    (position : ℕ)
    (ledger : Ledger κ ρ)
    (earlier : List ρ)
    (record : ρ) : Prop :=
  ident record ∈ (ledger.operations ++ earlier).map ident ∨
    (capacity (position + earlier.length) = .ok () ∧
      rules.Accepts fits (rules.overlay (slotsOf ledger.winners) earlier) record)

variable {rules : Rules κ ρ Ω} {ident : ρ → ι} {fits : ρ → Bool}
variable {capacity : ℕ → Except ε Unit} {position : ℕ}
variable {ledger next final : Ledger κ ρ} {record : ρ} {batch : List ρ}
variable {outcome : Outcome}

theorem Sound.dominated {weaker : Rules κ ρ Ω}
    (sound : ledger.Sound weaker ident)
    (key : weaker.key = rules.key)
    (rank : weaker.rank = rules.rank) :
    ledger.Dominated rules := by
  intro record member
  rw [← key, ← rank]
  exact sound.run.dominates member

/-- Some outcome is possible exactly when the record is logged, or there is room
and the guards let it pass. -/
theorem exists_ingests_iff_accepts {available : Except ε Unit} :
    (∃ outcome next, ledger.Ingests rules ident (fun _ => fits) available record
        outcome next) ↔
      ident record ∈ ledger.operations.map ident ∨
        (available = .ok () ∧ rules.Accepts fits (slotsOf ledger.winners) record) := by
  simp only [Rules.accepts_iff, Ingests]
  constructor
  · rintro ⟨outcome, next, ⟨logged, _⟩ | ⟨_, available, step, storable, _⟩⟩
    · exact Or.inl logged
    · exact Or.inr ⟨available, outcome, step, storable⟩
  · rintro (logged | ⟨available, outcome, step, storable⟩)
    · exact ⟨.duplicate, ledger, Or.inl ⟨logged, rfl, rfl⟩⟩
    · by_cases logged : ident record ∈ ledger.operations.map ident
      · exact ⟨.duplicate, ledger, Or.inl ⟨logged, rfl, rfl⟩⟩
      · exact ⟨outcome, _, Or.inr ⟨logged, available, step, storable, rfl⟩⟩

/-- Some outcome is possible exactly when the record is admitted. -/
theorem exists_ingests_iff :
    (∃ outcome next, ledger.Ingests rules ident (fun _ => fits) (capacity position)
        record outcome next) ↔
      ledger.Admits rules ident fits capacity position [] record := by
  rw [exists_ingests_iff_accepts, Admits, List.append_nil, Rules.overlay_nil]
  rfl

/-- Taking one record settles it among the winners and logs it. -/
theorem Ingests.settles
    (ingests : ledger.Ingests rules ident (fun _ => fits) (capacity position)
      record outcome next)
    (dominated : ledger.Dominated rules)
    (injective : Set.InjOn ident {other | other ∈ ledger.operations ∨ other = record}) :
    slotsOf next.winners = rules.settle (slotsOf ledger.winners) record ∧
      next.Dominated rules ∧
      ∀ other, other ∈ next.operations ↔ other ∈ ledger.operations ∨ other = record := by
  rcases ingests with ⟨logged, rfl, rfl⟩ | ⟨_, _, ⟨slots, step⟩, _, rfl⟩
  · obtain ⟨other, member, same⟩ := List.mem_map.mp logged
    obtain rfl := injective (Or.inl member) (Or.inr rfl) same
    obtain ⟨current, stands, outranked⟩ := dominated other member
    refine ⟨(Rules.settle_of_outranked stands outranked).symm, dominated, fun other => ?_⟩
    exact ⟨Or.inl, fun present => present.elim id fun same => same ▸ member⟩
  · have winners := winners_append_of_step step
    have members : ∀ other, other ∈ (ledger.append rules.key outcome record).operations ↔
        other ∈ ledger.operations ∨ other = record := by
      simp [Ledger.append]
    refine ⟨winners.trans step.eq_settle, ?_, members⟩
    intro other present
    rw [winners]
    rcases (members other).mp present with earlier | rfl
    · obtain ⟨current, stands, bound⟩ := dominated other earlier
      obtain ⟨later, laterStands, rise⟩ := step.rises stands
      refine ⟨later, laterStands, bound.trans ?_⟩
      rcases rise with rfl | rise
      · exact le_rfl
      · exact rise.le
    · exact step.stands

/-- Taking a batch overlays it on the winners and logs it. -/
theorem Takes.overlays
    (takes : Takes rules ident fits capacity position ledger batch final)
    (dominated : ledger.Dominated rules)
    (injective : Set.InjOn ident {other | other ∈ ledger.operations ∨ other ∈ batch}) :
    slotsOf final.winners = rules.overlay (slotsOf ledger.winners) batch ∧
      final.Dominated rules ∧
      ∀ other, other ∈ final.operations ↔ other ∈ ledger.operations ∨ other ∈ batch := by
  induction takes with
  | nil => exact ⟨rfl, dominated, by simp⟩
  | @cons position ledger next final record outcome batch ingests rest inductionHypothesis =>
      obtain ⟨winners, nextDominated, members⟩ := ingests.settles dominated
        (injective.mono fun other present => present.imp_right
          fun same => same ▸ List.mem_cons_self)
      obtain ⟨finalWinners, finalDominated, finalMembers⟩ :=
        inductionHypothesis nextDominated (injective.mono fun other present => by
          rcases present with earlier | later
          · rcases (members other).mp earlier with logged | rfl
            · exact Or.inl logged
            · exact Or.inr List.mem_cons_self
          · exact Or.inr (List.mem_cons_of_mem _ later))
      refine ⟨by rw [finalWinners, winners, Rules.overlay_cons], finalDominated, fun other => ?_⟩
      rw [finalMembers, members, List.mem_cons, or_assoc]

/-- What holds of the winners and of a record that fits holds of the winners after
a batch. -/
theorem Takes.winners_of
    (takes : Takes rules ident fits capacity position ledger batch final)
    (winners : ∀ key current, slotsOf ledger.winners key = some current →
      fits current = true) :
    ∀ key current, slotsOf final.winners key = some current → fits current = true := by
  induction takes with
  | nil => exact winners
  | cons ingests _ inductionHypothesis =>
      exact inductionHypothesis (ingests.winners_of winners)

/-- After a taken batch a record is admitted as the batch predicts. -/
theorem Takes.admits_iff
    (takes : Takes rules ident fits capacity position ledger batch final)
    (dominated : ledger.Dominated rules)
    (injective : Set.InjOn ident {other | other ∈ ledger.operations ∨ other ∈ batch})
    (earlier : List ρ) :
    final.Admits rules ident fits capacity (position + batch.length) earlier record ↔
      ledger.Admits rules ident fits capacity position (batch ++ earlier) record := by
  obtain ⟨winners, _, members⟩ := takes.overlays dominated injective
  have logged : ident record ∈ (final.operations ++ earlier).map ident ↔
      ident record ∈ (ledger.operations ++ (batch ++ earlier)).map ident := by
    simp only [List.map_append, List.mem_append, List.mem_map, members]
    grind
  have overlaid : rules.overlay (slotsOf final.winners) earlier =
      rules.overlay (slotsOf ledger.winners) (batch ++ earlier) := by
    rw [winners]
    exact (List.foldl_append).symm
  simp only [Admits, logged, overlaid, List.length_append, Nat.add_assoc]

/-- A batch is taken exactly when each of its records is admitted after the ones
before it. -/
theorem exists_takes_iff
    (dominated : ledger.Dominated rules)
    (injective : Set.InjOn ident {other | other ∈ ledger.operations ∨ other ∈ batch}) :
    (∃ final, Takes rules ident fits capacity position ledger batch final) ↔
      ∀ earlier record later, batch = earlier ++ record :: later →
        ledger.Admits rules ident fits capacity position earlier record := by
  induction batch generalizing position ledger with
  | nil => exact ⟨fun _ => by simp, fun _ => ⟨ledger, .nil⟩⟩
  | cons head batch inductionHypothesis =>
      have headInjective : Set.InjOn ident
          {other | other ∈ ledger.operations ∨ other ∈ [head]} :=
        injective.mono fun other present => present.imp_right fun same =>
          List.mem_singleton.mp same ▸ List.mem_cons_self
      have tail : ∀ {outcome next},
          ledger.Ingests rules ident (fun _ => fits) (capacity position) head outcome next →
          ((∃ final, Takes rules ident fits capacity (position + 1) next batch final) ↔
            ∀ earlier record later, batch = earlier ++ record :: later →
              ledger.Admits rules ident fits capacity position (head :: earlier) record) := by
        intro outcome next ingests
        have single : Takes rules ident fits capacity position ledger [head] next :=
          .cons ingests .nil
        obtain ⟨_, nextDominated, members⟩ := single.overlays dominated headInjective
        rw [inductionHypothesis nextDominated (injective.mono fun other present => by
          rcases present with logged | later
          · rcases (members other).mp logged with logged | same
            · exact Or.inl logged
            · exact Or.inr (List.mem_singleton.mp same ▸ List.mem_cons_self)
          · exact Or.inr (List.mem_cons_of_mem _ later))]
        refine forall_congr' fun earlier => forall_congr' fun record => forall_congr' fun later =>
          imp_congr_right fun _ => ?_
        exact single.admits_iff dominated headInjective earlier
      constructor
      · rintro ⟨final, takes⟩
        cases takes with
        | cons ingests rest =>
            intro earlier record later split
            cases earlier with
            | nil =>
                obtain ⟨rfl, _⟩ := List.cons.inj split
                exact exists_ingests_iff.mp ⟨_, _, ingests⟩
            | cons first earlier =>
                obtain ⟨rfl, tailSplit⟩ := List.cons.inj split
                exact (tail ingests).mp ⟨final, rest⟩ earlier record later tailSplit
      · intro admits
        obtain ⟨outcome, next, ingests⟩ := exists_ingests_iff.mpr (admits [] head batch rfl)
        obtain ⟨final, rest⟩ := (tail ingests).mpr fun earlier record later split =>
          admits (head :: earlier) record later (by rw [split, List.cons_append])
        exact ⟨final, .cons ingests rest⟩

/-- A loop over a state that holds a ledger takes its batch as the ledger does. -/
theorem path_iff_takes
    {σ : Type*}
    {action : ℕ → σ → ρ → Except ε (Outcome × σ)}
    {state finalState : σ}
    (get : σ → Ledger κ ρ)
    (put : σ → Ledger κ ρ → σ)
    (Holds : σ → Prop)
    (get_put : ∀ state ledger, get (put state ledger) = ledger)
    (put_put : ∀ state first second, put (put state first) second = put state second)
    (put_get : ∀ state, put state (get state) = state)
    (ingests : ∀ {position state record outcome next}, Holds state →
      (action position state record = .ok (outcome, next) ↔
        ∃ after, (get state).Ingests rules ident (fun _ => fits) (capacity position) record
          outcome after ∧ next = put state after))
    (kept : ∀ {position state record outcome next}, Holds state →
      action position state record = .ok (outcome, next) → Holds next)
    (holds : Holds state) :
    Fallible.Path action position state batch finalState ↔
      ∃ after, Takes rules ident fits capacity position (get state) batch after ∧
        finalState = put state after := by
  constructor
  · intro path
    induction path with
    | nil => exact ⟨_, .nil, (put_get _).symm⟩
    | cons taken _ inductionHypothesis =>
        obtain ⟨after, ingested, rfl⟩ := (ingests holds).mp taken
        obtain ⟨last, takes, rfl⟩ := inductionHypothesis (kept holds taken)
        rw [get_put] at takes
        exact ⟨last, .cons ingested takes, put_put _ _ _⟩
  · rintro ⟨after, takes, rfl⟩
    generalize held : get state = start at takes
    induction takes generalizing state with
    | nil =>
        rw [← held, put_get]
        exact .nil
    | @cons position _ next final record outcome batch ingested _ inductionHypothesis =>
        subst held
        have taken : action position state record = .ok (outcome, put state next) :=
          (ingests holds).mpr ⟨next, ingested, rfl⟩
        have rest := inductionHypothesis (kept holds taken) (get_put state next)
        rw [put_put] at rest
        exact .cons taken rest

/-- The records of a batch that a ledger takes before the first refusal. -/
def TakesUpTo
    (rules : Rules κ ρ Ω)
    (ident : ρ → ι)
    (fits : ρ → Bool)
    (capacity : ℕ → Except ε Unit)
    (position : ℕ)
    (ledger : Ledger κ ρ)
    (batch taken : List ρ) : Prop :=
  ∃ rest, batch = taken ++ rest ∧
    (∀ earlier record later, taken = earlier ++ record :: later →
      ledger.Admits rules ident fits capacity position earlier record) ∧
    ∀ record later, rest = record :: later →
      ¬ledger.Admits rules ident fits capacity position taken record

/-- The first refusal is unique. -/
theorem TakesUpTo.unique
    (first : ledger.TakesUpTo rules ident fits capacity position batch taken)
    (second : ledger.TakesUpTo rules ident fits capacity position batch other) :
    taken = other := by
  obtain ⟨rest, split, admits, refuses⟩ := first
  obtain ⟨otherRest, otherSplit, otherAdmits, otherRefuses⟩ := second
  rw [split, List.append_eq_append_iff] at otherSplit
  rcases otherSplit with ⟨more, rfl, rfl⟩ | ⟨more, rfl, rfl⟩
  · cases more with
    | nil => rw [List.append_nil]
    | cons record more =>
        exact absurd (otherAdmits taken record more rfl) (refuses record _ rfl)
  · cases more with
    | nil => rw [List.append_nil]
    | cons record more =>
        exact absurd (admits other record more rfl) (otherRefuses record _ rfl)

end Ledger

end Replication
