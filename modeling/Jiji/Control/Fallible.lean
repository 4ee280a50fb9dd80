import Mathlib

/-!
# Fallible loops

Rules for computations that stop at their first error.
-/

namespace Fallible

variable {α β ε δ : Type*}

/-- Renaming errors changes no result. -/
theorem mapError_eq_ok_iff {action : Except ε α} {rename : ε → δ} {result : α} :
    action.mapError rename = .ok result ↔ action = .ok result := by
  cases action with
  | error error => simp [Except.mapError]
  | ok value => simp [Except.mapError]

theorem map_eq_ok_iff {action : Except ε α} {transform : α → β} {result : β} :
    action.map transform = .ok result ↔
      ∃ value, action = .ok value ∧ transform value = result := by
  cases action with
  | error error => simp [Except.map]
  | ok value => simp [Except.map]

theorem bind_eq_ok_iff
    {α β : Type}
    {action : Except ε α}
    {next : α → Except ε β}
    {result : β} :
    action >>= next = .ok result ↔ ∃ value, action = .ok value ∧ next value = .ok result := by
  cases action with
  | error error => simp [bind, Except.bind]
  | ok value => simp [bind, Except.bind]

/-- A guarded action succeeds exactly if the guard holds and the action succeeds. -/
theorem guarded_eq_ok_iff
    {guard : Prop}
    [Decidable guard]
    {action : Except ε α}
    {result : α} :
    (if guard then action else .error error) = .ok result ↔ guard ∧ action = .ok result := by
  split <;> simp_all

/-- The state after an action that may have failed without effect. -/
def keep (state : β) : Except ε (α × β) → β
  | .error _ => state
  | .ok (_, next) => next

/-- What holds of a state and of every successful outcome holds afterwards. -/
theorem keep_of
    (Holds : β → Prop)
    {result : Except ε (α × β)}
    (before : Holds state)
    (after : ∀ value next, result = .ok (value, next) → Holds next) :
    Holds (keep state result) := by
  cases result with
  | error error => exact before
  | ok outcome => exact after outcome.1 outcome.2 rfl

/-- A checking loop succeeds exactly when every check succeeds. -/
theorem forM_eq_ok_iff
    {check : α → Except ε PUnit}
    {items : List α} :
    items.forM check = .ok () ↔ ∀ item ∈ items, check item = .ok () := by
  induction items with
  | nil => simp [List.forM, pure, Except.pure]
  | cons item items inductionHypothesis =>
      unfold List.forM
      cases checked : check item with
      | error error => simp [bind, Except.bind, checked]
      | ok _ =>
          simp only [bind, Except.bind, inductionHypothesis, List.mem_cons,
            forall_eq_or_imp, checked, true_and]

section Collecting

/-- Collect what an action finds for each item, up to the first error. -/
def collect (action : α → Except ε (List β)) : List α → Except ε (List β)
  | [] => .ok []
  | item :: items =>
      match action item with
      | .error error => .error error
      | .ok found => (collect action items).map (found ++ ·)

variable {action : α → Except ε (List β)} {items : List α}

/-- What is collected is what the action finds for the items. -/
theorem mem_of_collect_eq_ok
    (collected : collect action items = .ok found) :
    value ∈ found ↔ ∃ item ∈ items, ∃ part, action item = .ok part ∧ value ∈ part := by
  induction items generalizing found with
  | nil =>
      obtain rfl := Except.ok.inj collected
      simp
  | cons item items inductionHypothesis =>
      unfold collect at collected
      split at collected
      · cases collected
      · rename_i first succeeds
        obtain ⟨rest, restCollected, rfl⟩ := map_eq_ok_iff.mp collected
        simp [inductionHypothesis restCollected, succeeds]

/-- Collecting fails exactly if the action fails for an item. -/
theorem collect_eq_error_iff :
    (∃ error, collect action items = .error error) ↔
      ∃ item ∈ items, ∃ error, action item = .error error := by
  induction items with
  | nil => simp [collect]
  | cons item items inductionHypothesis =>
      rw [List.exists_mem_cons_iff, ← inductionHypothesis]
      cases first : action item with
      | error error => simp [collect, first]
      | ok found =>
          cases rest : collect action items with
          | error error => simp [collect, first, rest, Except.map]
          | ok others => simp [collect, first, rest, Except.map]

end Collecting

section Loops

variable {σ : Type*}

/-- Apply a numbered action to each item in turn and stop at the first error; the
state reached so far is kept. -/
def each
    (action : ℕ → σ → α → Except ε (β × σ))
    (position : ℕ)
    (state : σ) : List α → Except ε Unit × σ
  | [] => (.ok (), state)
  | item :: items =>
      match action position state item with
      | .error error => (.error error, state)
      | .ok (_, next) => each action (position + 1) next items

/-- A loop that takes all of its items without an error. -/
inductive Path (action : ℕ → σ → α → Except ε (β × σ)) : ℕ → σ → List α → σ → Prop
  | nil {position : ℕ} {state : σ} : Path action position state [] state
  | cons {position : ℕ} {state next final : σ} {item : α} {items : List α} {value : β} :
      action position state item = .ok (value, next) →
      Path action (position + 1) next items final →
      Path action position state (item :: items) final

variable {action : ℕ → σ → α → Except ε (β × σ)} {position : ℕ} {state final : σ}
variable {items : List α}

theorem each_eq_of_path (path : Path action position state items final) :
    each action position state items = (.ok (), final) := by
  induction path with
  | nil => rfl
  | cons succeeds _ inductionHypothesis => simp only [each, succeeds, inductionHypothesis]

/-- What holds of a state and is kept by every successful action on an item holds
of the state that a loop reaches. -/
theorem each_of
    (Holds : σ → Prop)
    (before : Holds state)
    (kept : ∀ {position : ℕ} {state next : σ} {item : α} {value : β}, item ∈ items →
      Holds state → action position state item = .ok (value, next) → Holds next) :
    Holds (each action position state items).2 := by
  induction items generalizing position state with
  | nil => exact before
  | cons item items inductionHypothesis =>
      unfold each
      split
      · exact before
      · rename_i value next attempt
        exact inductionHypothesis (kept List.mem_cons_self before attempt)
          fun member => kept (List.mem_cons_of_mem item member)

theorem exists_path_cons_iff {item : α} :
    (∃ final, Path action position state (item :: items) final) ↔
      ∃ value next, action position state item = .ok (value, next) ∧
        ∃ final, Path action (position + 1) next items final := by
  constructor
  · rintro ⟨final, path⟩
    cases path with
    | cons succeeds rest => exact ⟨_, _, succeeds, final, rest⟩
  · rintro ⟨value, next, succeeds, final, rest⟩
    exact ⟨final, .cons succeeds rest⟩

/-- A loop takes a first part of its items without an error and stops at the end
or at an item that fails. -/
theorem exists_path_each
    (action : ℕ → σ → α → Except ε (β × σ))
    (position : ℕ)
    (state : σ)
    (items : List α) :
    ∃ taken rest final, items = taken ++ rest ∧ Path action position state taken final ∧
      ((rest = [] ∧ each action position state items = (.ok (), final)) ∨
        ∃ item tail error, rest = item :: tail ∧
          action (position + taken.length) final item = .error error ∧
          each action position state items = (.error error, final)) := by
  induction items generalizing position state with
  | nil => exact ⟨[], [], state, rfl, .nil, Or.inl ⟨rfl, rfl⟩⟩
  | cons item items inductionHypothesis =>
      cases attempt : action position state item with
      | error error =>
          exact ⟨[], item :: items, state, rfl, .nil,
            Or.inr ⟨item, items, error, rfl, attempt, by simp only [each, attempt]⟩⟩
      | ok result =>
          obtain ⟨value, next⟩ := result
          obtain ⟨taken, rest, final, split, path, ending⟩ :=
            inductionHypothesis (position + 1) next
          refine ⟨item :: taken, rest, final, by rw [split, List.cons_append],
            .cons attempt path, ?_⟩
          have unfolded : each action position state (item :: items) =
              each action (position + 1) next items := by
            simp only [each, attempt]
          rw [unfolded, List.length_cons, Nat.add_comm taken.length, ← Nat.add_assoc]
          exact ending

/-- A loop succeeds exactly when it can take all of its items. -/
theorem each_ok_iff :
    (each action position state items).1 = .ok () ↔
      ∃ final, Path action position state items final := by
  constructor
  · intro succeeds
    obtain ⟨taken, rest, final, split, path, ⟨rfl, _⟩ | ⟨_, _, error, _, _, fails⟩⟩ :=
      exists_path_each action position state items
    · rw [List.append_nil] at split
      exact ⟨final, split ▸ path⟩
    · simp [fails] at succeeds
  · rintro ⟨final, path⟩
    rw [each_eq_of_path path]

end Loops

section Effects

variable {σ : Type*}

end Effects

end Fallible
