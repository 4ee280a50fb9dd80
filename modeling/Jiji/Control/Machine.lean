import Mathlib

/-!
# Machines

A machine takes an event in a state or refuses it.  What holds at the start of a
machine and is kept by every event that may happen holds in every state that the
machine reaches.
-/

namespace Control

variable {σ ε : Type*}

/-- A state machine: the state after an event, if the event is possible. -/
structure Machine (σ ε : Type*) where
  advance : σ → ε → Option σ

namespace Machine

variable (machine : Machine σ ε) (may : σ → ε → Prop)

/-- The state after a sequence of events. -/
def run (state : σ) (events : List ε) : Option σ :=
  events.foldlM machine.advance state

/-- The states that are reached by events that may happen in the states they meet. -/
inductive Reaches (start : σ) : σ → Prop
  | start : Reaches start start
  | step {state next : σ} (event : ε) :
      Reaches start state → may state event → machine.advance state event = some next →
      Reaches start next

variable {machine may} {start final : σ}

/-- An inductive invariant holds in every state that is reached. -/
theorem Reaches.invariant
    {holds : σ → Prop}
    (reaches : machine.Reaches may start final)
    (initially : holds start)
    (kept : ∀ state event next, holds state → may state event →
      machine.advance state event = some next → holds next) :
    holds final := by
  induction reaches with
  | start => exact initially
  | step event _ allowed advanced inductionHypothesis =>
      exact kept _ event _ inductionHypothesis allowed advanced

/-- The machine that refuses the events that do not pass a check. -/
def checked (machine : Machine σ ε) (check : σ → ε → Bool) : Machine σ ε where
  advance state event := if check state event then machine.advance state event else none

/-- A run of events that pass a check leads to a state that is reached. -/
theorem reaches_of_checked
    (ran : (machine.checked check).run start events = some final)
    (allowed : ∀ state event, check state event = true → may state event) :
    machine.Reaches may start final := by
  induction events using List.reverseRecOn generalizing final with
  | nil =>
      obtain rfl : start = final := by simpa [run] using ran
      exact .start
  | append_singleton events event inductionHypothesis =>
      simp only [run, List.foldlM_append, List.foldlM_cons, List.foldlM_nil, bind_pure] at ran
      obtain ⟨middle, before, advanced⟩ := Option.bind_eq_some_iff.mp ran
      simp only [checked] at advanced
      split at advanced
      · rename_i passed
        exact .step event (inductionHypothesis before) (allowed middle event passed) advanced
      · simp at advanced

end Machine

end Control
