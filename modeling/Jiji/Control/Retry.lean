import Mathlib

/-!
# Retrying interrupted scripts

Every command overwrites a place of the state, or leaves it, or puts it to rest.  A
script of such commands that is interrupted anywhere and then executed from its start
leaves the place as one execution does.  What a place holds at the end was put there by
some command, or was there from the start and never taken away.
-/

namespace Control

variable {σ α β : Type*} {rest : β} {change next : β → β}

/-- A change that overwrites a value whatever it was, or else keeps it or puts it to rest. -/
inductive Settling (rest : β) (change : β → β) : Prop
  | overwrite (value : β) :
      (∀ current, change current = value) → Settling rest change
  | release :
      (∀ current, change current = current ∨ change current = rest) → Settling rest change

namespace Settling

theorem refl : Settling rest fun current => current :=
  .release fun _ => Or.inl rfl

/-- A change that overwrites a value if some condition holds, and else keeps it. -/
theorem of_cond
    (holds : condition → ∀ current, change current = value)
    (fails : ¬condition → ∀ current, change current = current) :
    Settling rest change := by
  by_cases decided : condition
  · exact .overwrite value (holds decided)
  · exact .release fun current => Or.inl (fails decided current)

/-- One settling change after another. -/
theorem comp (first : Settling rest change) (second : Settling rest next) :
    Settling rest fun current => next (change current) := by
  cases second with
  | overwrite value constant => exact .overwrite value fun current => constant _
  | release releases =>
      cases first with
      | overwrite value constant =>
          exact .overwrite (next value) fun current => congrArg next (constant current)
      | release earlier =>
          refine .release fun current => ?_
          obtain kept | rested := earlier current
          · rw [kept]
            exact releases current
          · rw [rested]
            exact Or.inr ((releases rest).elim id id)

/-- A settling change has no further effect the second time. -/
theorem idempotent (settles : Settling rest change) (current : β) :
    change (change current) = change current := by
  cases settles with
  | overwrite value constant => rw [constant, constant]
  | release releases =>
      obtain kept | rested := releases current
      · rw [kept, kept]
      · rw [rested]
        exact (releases rest).elim id id

/-- A script of settling changes is one. -/
theorem foldl
    {changes : α → β → β}
    (settles : ∀ command, Settling rest (changes command))
    (commands : List α) :
    Settling rest fun current =>
      commands.foldl (fun value command => changes command value) current := by
  induction commands with
  | nil => exact refl
  | cons command commands inductionHypothesis => exact (settles command).comp inductionHypothesis

end Settling

/-- A place that every command settles is the same after an interrupted execution and a
retry as after one execution. -/
theorem place_retry
    (place : σ → β)
    {changes : α → β → β}
    (acts : ∀ state command, changes command (place state) = place (execute state command))
    (settles : ∀ command, Settling rest (changes command))
    {interrupted commands : List α}
    (stopped : interrupted <+: commands)
    (state : σ) :
    place (commands.foldl execute (interrupted.foldl execute state)) =
      place (commands.foldl execute state) := by
  obtain ⟨remaining, rfl⟩ := stopped
  have read : ∀ (script : List α) (start : σ), place (script.foldl execute start) =
      script.foldl (fun value command => changes command value) (place start) :=
    fun script start => (List.foldl_hom place acts).symm
  have again := (Settling.foldl settles interrupted).idempotent (place state)
  rw [List.foldl_append, List.foldl_append]
  simp only [read, again]

section Traces

variable {execute : σ → α → σ} (holds : σ → Prop) {adds removes : α → Prop}

/-- What holds after a script was brought about by a command, or held before and was ended
by none. -/
theorem holds_foldl_origin
    (origin : ∀ state command, holds (execute state command) →
      adds command ∨ holds state ∧ ¬removes command)
    {commands : List α}
    {state : σ}
    (afterwards : holds (commands.foldl execute state)) :
    (∃ command ∈ commands, adds command) ∨
      holds state ∧ ∀ command ∈ commands, ¬removes command := by
  induction commands generalizing state with
  | nil => exact Or.inr ⟨afterwards, fun _ absent => absurd absent List.not_mem_nil⟩
  | cons command commands inductionHypothesis =>
      obtain ⟨later, member, added⟩ | ⟨next, unended⟩ := inductionHypothesis afterwards
      · exact Or.inl ⟨later, List.mem_cons_of_mem _ member, added⟩
      · obtain added | ⟨before, kept⟩ := origin state command next
        · exact Or.inl ⟨command, List.mem_cons_self, added⟩
        · exact Or.inr ⟨before, List.forall_mem_cons.mpr ⟨kept, unended⟩⟩

/-- What no command ends holds after a script. -/
theorem holds_foldl
    (keeps : ∀ state command, holds state → ¬removes command → holds (execute state command))
    {commands : List α}
    (before : holds state)
    (unended : ∀ command ∈ commands, ¬removes command) :
    holds (commands.foldl execute state) := by
  induction commands generalizing state with
  | nil => exact before
  | cons command commands inductionHypothesis =>
      obtain ⟨kept, later⟩ := List.forall_mem_cons.mp unended
      exact inductionHypothesis (keeps state command before kept) later

end Traces

end Control
