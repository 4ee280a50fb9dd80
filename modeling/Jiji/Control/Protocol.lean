import Jiji.Control.Script

/-!
# Protocols of scripts

A protocol says which requests are allowed in a phase, and how a request and its
reply move the phase.  A script that follows a protocol keeps to it whatever the
replies are, so an invariant of the phases holds at every call of the script, also
when others act on the world between its calls.
-/

namespace Control

variable {ω ρ π α β ε : Type*}

/-- The allowed requests of each phase, and the phase after a request and its reply. -/
structure Protocol (ω ρ π : Type*) where
  allowed : π → ω → Prop
  after : π → ω → ρ → π

namespace Script

/-- A script follows a protocol from a phase on, and ends in a phase that fits its
value. -/
def Follows (protocol : Protocol ω ρ π) :
    π → Script ω ρ α → (α → π → Prop) → Prop
  | phase, .done value, ends => ends value phase
  | phase, .call request next, ends =>
      protocol.allowed phase request ∧
        ∀ reply, Follows protocol (protocol.after phase request reply) (next reply) ends

variable {protocol : Protocol ω ρ π} {phase : π}

theorem Follows.bind
    (first : Follows protocol phase script ends)
    (rest : ∀ value reached, ends value reached →
      Follows protocol reached (next value) concludes) :
    Follows protocol phase (script.bind next) concludes := by
  induction script generalizing phase with
  | done value => exact rest value phase first
  | call request next inductionHypothesis =>
      exact ⟨first.1, fun reply => inductionHypothesis reply (first.2 reply)⟩

theorem Follows.andThen
    {next : α → Script ω ρ (Except ε β)}
    {ends : Except ε α → π → Prop}
    {concludes : Except ε β → π → Prop}
    (first : Follows protocol phase script ends)
    (failed : ∀ error reached, ends (.error error) reached → concludes (.error error) reached)
    (rest : ∀ value reached, ends (.ok value) reached →
      Follows protocol reached (next value) concludes) :
    Follows protocol phase (script.andThen next) concludes := by
  refine first.bind fun outcome reached ended => ?_
  cases outcome with
  | error error => exact failed error reached ended
  | ok value => exact rest value reached ended

theorem Follows.ask
    {request : ω}
    {ends : α → π → Prop}
    (allowed : protocol.allowed phase request)
    (settled : ∀ reply, ends (decode reply) (protocol.after phase request reply)) :
    Follows protocol phase (ask request decode) ends :=
  ⟨allowed, settled⟩

/-- A script whose requests are allowed in some phases and do not leave them stays among
them. -/
theorem Follows.of_uses
    (uses : script.Uses legal)
    (allowed : ∀ phase request, among phase → legal request → protocol.allowed phase request)
    (still : ∀ phase request reply, among phase → legal request →
      among (protocol.after phase request reply))
    (inside : among phase) :
    Follows protocol phase script fun _ => among := by
  induction script generalizing phase with
  | done value => exact inside
  | call request next inductionHypothesis =>
      exact ⟨allowed phase request inside uses.1, fun reply =>
        inductionHypothesis reply (uses.2 reply) (still phase request reply inside uses.1)⟩

theorem Follows.mono
    (follows : Follows protocol phase script ends)
    (weakens : ∀ value reached, ends value reached → weaker value reached) :
    Follows protocol phase script weaker := by
  induction script generalizing phase with
  | done value => exact weakens value phase follows
  | call request next inductionHypothesis =>
      exact ⟨follows.1, fun reply => inductionHypothesis reply (follows.2 reply)⟩

end Script

end Control
