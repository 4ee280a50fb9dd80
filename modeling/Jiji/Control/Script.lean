import Mathlib

/-!
# Scripts of remote calls

A script makes calls and decides how to go on from their replies.  A world
performs the calls on its state.  Each call meets a fate: it is answered, or its
reply is lost after it took effect, or it never arrives; a script whose fates run
out is cut off.  Pre- and postconditions of scripts compose along their
structure, and an invariant of the calls that a script may make is an invariant
of its runs.
-/

namespace Control

variable {ω ρ η φ σ α β ε : Type*}

/-- A program that makes calls and continues with the replies. -/
inductive Script (ω ρ α : Type*)
  | done (value : α)
  | call (request : ω) (next : ρ → Script ω ρ α)

/-- What performs the calls, and the replies that stand for a failure. -/
structure World (ω ρ η φ σ : Type*) where
  perform : η → σ → ω → ρ × σ
  failure : φ → ρ

/-- What becomes of one call, with the conditions that it is performed under. -/
inductive Fate (η φ : Type*)
  | answered (input : η)
  | lost (input : η) (reason : φ)
  | unreached (reason : φ)

/-- A call that was made: what the world answered, if it was reached, and what the
script was told. -/
structure Call (ω ρ : Type*) where
  request : ω
  answer : Option ρ
  reply : ρ

/-- Let a call meet its fate. -/
def World.settle (world : World ω ρ η φ σ) (state : σ) (request : ω) :
    Fate η φ → Call ω ρ × σ
  | .answered input =>
      let (answer, next) := world.perform input state request
      (⟨request, some answer, answer⟩, next)
  | .lost input reason =>
      let (answer, next) := world.perform input state request
      (⟨request, some answer, world.failure reason⟩, next)
  | .unreached reason => (⟨request, none, world.failure reason⟩, state)

/-- A call leaves the state alone, or the world performed it. -/
theorem World.settle_state
    (world : World ω ρ η φ σ)
    (state : σ)
    (request : ω)
    (fate : Fate η φ) :
    (world.settle state request fate).2 = state ∨
      ∃ input, (world.settle state request fate).2 = (world.perform input state request).2 ∧
        (world.settle state request fate).1.answer =
          some (world.perform input state request).1 := by
  cases fate with
  | answered input => exact Or.inr ⟨input, rfl, rfl⟩
  | lost input reason => exact Or.inr ⟨input, rfl, rfl⟩
  | unreached reason => exact Or.inl rfl

/-- A reply that does not stand for a failure comes from the world. -/
theorem World.performed_of_reply
    (world : World ω ρ η φ σ)
    (replied : (world.settle state request fate).1.reply = reply)
    (genuine : ∀ reason, world.failure reason ≠ reply) :
    (world.settle state request fate).1.answer = some reply ∧
      ∃ input, world.perform input state request =
        (reply, (world.settle state request fate).2) := by
  cases fate with
  | answered input => exact ⟨congrArg some replied, input, Prod.ext replied rfl⟩
  | lost input reason => exact absurd replied (genuine reason)
  | unreached reason => exact absurd replied (genuine reason)

theorem World.settle_request
    (world : World ω ρ η φ σ)
    (state : σ)
    (request : ω)
    (fate : Fate η φ) :
    (world.settle state request fate).1.request = request := by
  cases fate <;> rfl

/-- How far a script came: its value unless it was cut off, the calls it made and
the state it left. -/
structure Execution (ω ρ σ α : Type*) where
  result : Option α
  calls : List (Call ω ρ)
  state : σ

namespace Script

/-- Continue a script with its value. -/
def bind : Script ω ρ α → (α → Script ω ρ β) → Script ω ρ β
  | .done value, next => next value
  | .call request rest, next => .call request fun reply => (rest reply).bind next

/-- Make one call and return its reply. -/
def request (request : ω) : Script ω ρ ρ := .call request .done

/-- Continue a script unless it returned an error. -/
def andThen
    (script : Script ω ρ (Except ε α))
    (next : α → Script ω ρ (Except ε β)) : Script ω ρ (Except ε β) :=
  script.bind fun
    | .error error => .done (.error error)
    | .ok value => next value

/-- Run an action on each item and stop at the first error. -/
def tryEach (action : α → Script ω ρ (Except ε Unit)) :
    List α → Script ω ρ (Except ε Unit)
  | [] => .done (.ok ())
  | item :: items => (action item).andThen fun _ => tryEach action items

/-- Run an action on each item. -/
def forEach (action : α → Script ω ρ Unit) : List α → Script ω ρ Unit
  | [] => .done ()
  | item :: items => (action item).bind fun _ => forEach action items

/-- Run an action on each item and return the values. -/
def collect (action : α → Script ω ρ β) : List α → Script ω ρ (List β)
  | [] => .done []
  | item :: items =>
      (action item).bind fun value =>
        (collect action items).bind fun values => .done (value :: values)

/-- Run a script on a state whose calls are all answered. -/
def eval (perform : σ → ω → ρ × σ) : Script ω ρ α → σ → α × σ
  | .done value, state => (value, state)
  | .call request next, state =>
      let (reply, reached) := perform state request
      (next reply).eval perform reached

theorem eval_bind
    (perform : σ → ω → ρ × σ)
    (script : Script ω ρ α)
    (next : α → Script ω ρ β)
    (state : σ) :
    (script.bind next).eval perform state =
      (next (script.eval perform state).1).eval perform (script.eval perform state).2 := by
  induction script generalizing state with
  | done value => rfl
  | call request rest inductionHypothesis => exact inductionHypothesis _ _

theorem eval_andThen_ok
    {script : Script ω ρ (Except ε α)}
    {next : α → Script ω ρ (Except ε β)}
    {state reached : σ}
    {value : α}
    (succeeded : script.eval perform state = (.ok value, reached)) :
    (script.andThen next).eval perform state = (next value).eval perform reached := by
  rw [andThen, eval_bind, succeeded]

/-- Replace each call of a script by a script that implements it. -/
def expand {ω' ρ' : Type*} (implement : ω → Script ω' ρ' ρ) :
    Script ω ρ α → Script ω' ρ' α
  | .done value => .done value
  | .call request next =>
      (implement request).bind fun reply => (next reply).expand implement

theorem bind_assoc
    {γ : Type*}
    (script : Script ω ρ α)
    (next : α → Script ω ρ β)
    (last : β → Script ω ρ γ) :
    (script.bind next).bind last = script.bind fun value => (next value).bind last := by
  induction script with
  | done value => rfl
  | call request rest inductionHypothesis =>
      exact congrArg (Script.call request) (funext inductionHypothesis)

theorem expand_bind
    {ω' ρ' : Type*}
    (implement : ω → Script ω' ρ' ρ)
    (script : Script ω ρ α)
    (next : α → Script ω ρ β) :
    (script.bind next).expand implement =
      (script.expand implement).bind fun value => (next value).expand implement := by
  induction script with
  | done value => rfl
  | call request rest inductionHypothesis =>
      simp only [bind, expand, bind_assoc, inductionHypothesis]

theorem expand_andThen
    {ω' ρ' : Type*}
    (implement : ω → Script ω' ρ' ρ)
    (script : Script ω ρ (Except ε α))
    (next : α → Script ω ρ (Except ε β)) :
    (script.andThen next).expand implement =
      (script.expand implement).andThen fun value => (next value).expand implement := by
  rw [andThen, expand_bind]
  refine congrArg _ (funext fun outcome => ?_)
  cases outcome <;> rfl

/-- Run a script in a world, given the fate of each of its calls. -/
def run (world : World ω ρ η φ σ) :
    Script ω ρ α → List (Fate η φ) → σ → Execution ω ρ σ α
  | .done value, _, state => ⟨some value, [], state⟩
  | .call _ _, [], state => ⟨none, [], state⟩
  | .call request next, fate :: fates, state =>
      let (made, reached) := world.settle state request fate
      let rest := (next made.reply).run world fates reached
      ⟨rest.result, made :: rest.calls, rest.state⟩

/-- The runs of a script, whatever the fate of its calls. -/
inductive Runs (world : World ω ρ η φ σ) :
    Script ω ρ α → σ → Option α → List (Call ω ρ) → σ → Prop
  | done {value : α} {state : σ} : Runs world (.done value) state (some value) [] state
  | stopped {request : ω} {next : ρ → Script ω ρ α} {state : σ} :
      Runs world (.call request next) state none [] state
  | call {request : ω} {next : ρ → Script ω ρ α} {state final : σ} {result : Option α}
      {calls : List (Call ω ρ)} (fate : Fate η φ) :
      Runs world (next (world.settle state request fate).1.reply)
        (world.settle state request fate).2 result calls final →
      Runs world (.call request next) state result
        ((world.settle state request fate).1 :: calls) final

variable {world : World ω ρ η φ σ} {state final : σ} {calls : List (Call ω ρ)}

/-- Running a script with given fates is one of its runs. -/
theorem runs_run
    (world : World ω ρ η φ σ)
    (script : Script ω ρ α)
    (fates : List (Fate η φ))
    (state : σ) :
    Runs world script state (script.run world fates state).result
      (script.run world fates state).calls (script.run world fates state).state := by
  induction script generalizing fates state with
  | done value => exact .done
  | call request next inductionHypothesis =>
      cases fates with
      | nil => exact .stopped
      | cons fate fates => exact .call fate (inductionHypothesis _ fates _)

/-- A run of a continued script is cut off in the first part, or it completes the
first part and continues with its value. -/
theorem Runs.bind_cases
    (runs : Runs world (script.bind next) state result calls final) :
    (result = none ∧ Runs world script state none calls final) ∨
      ∃ value before after middle,
        Runs world script state (some value) before middle ∧
        Runs world (next value) middle result after final ∧
        calls = before ++ after := by
  induction script generalizing state calls with
  | done value => exact Or.inr ⟨value, [], calls, state, .done, runs, rfl⟩
  | call request rest inductionHypothesis =>
      cases runs with
      | stopped => exact Or.inl ⟨rfl, .stopped⟩
      | call fate continued =>
          rcases inductionHypothesis _ continued with
            ⟨rfl, first⟩ | ⟨value, before, after, middle, first, second, rfl⟩
          · exact Or.inl ⟨rfl, .call fate first⟩
          · exact Or.inr ⟨value, _ :: before, after, middle, .call fate first, second, rfl⟩

/-- A complete run of a continued script completes both parts. -/
theorem Runs.bind_some
    (runs : Runs world (script.bind next) state (some result) calls final) :
    ∃ value before after middle,
      Runs world script state (some value) before middle ∧
      Runs world (next value) middle (some result) after final ∧
      calls = before ++ after := by
  rcases runs.bind_cases with ⟨cut, _⟩ | complete
  · simp at cut
  · exact complete

/-- A run of a fallible sequence ends in its first part or continues with its
value. -/
theorem Runs.andThen_cases
    {next : α → Script ω ρ (Except ε β)}
    {result : Option (Except ε β)}
    (runs : Runs world (script.andThen next) state result calls final) :
    (result = none ∧ Runs world script state none calls final) ∨
      (∃ error, result = some (.error error) ∧
        Runs world script state (some (.error error)) calls final) ∨
      ∃ value before after middle,
        Runs world script state (some (.ok value)) before middle ∧
        Runs world (next value) middle result after final ∧
        calls = before ++ after := by
  rcases runs.bind_cases with stopped | ⟨outcome, before, after, middle, first, second, rfl⟩
  · exact Or.inl stopped
  · cases outcome with
    | error error =>
        cases second with
        | done => exact Or.inr (Or.inl ⟨error, rfl, by rwa [List.append_nil]⟩)
    | ok value => exact Or.inr (Or.inr ⟨value, before, after, middle, first, second, rfl⟩)

/-- A successful run of a fallible sequence succeeds in both parts. -/
theorem Runs.andThen_ok
    {next : α → Script ω ρ (Except ε β)}
    {value : β}
    (runs : Runs world (script.andThen next) state (some (.ok value)) calls final) :
    ∃ first before after middle,
      Runs world script state (some (.ok first)) before middle ∧
      Runs world (next first) middle (some (.ok value)) after final ∧
      calls = before ++ after := by
  rcases runs.andThen_cases with ⟨cut, _⟩ | ⟨error, failed, _⟩ | succeeded
  · simp at cut
  · simp at failed
  · exact succeeded

/-- What follows without calls adds none to a run. -/
theorem Runs.andThen_quiet
    {next : α → Script ω ρ (Except ε β)}
    {result : Except ε β}
    (quiet : ∀ value, ∃ outcome, next value = .done outcome)
    (runs : Runs world (script.andThen next) state (some result) calls final) :
    ∃ outcome, Runs world script state (some outcome) calls final := by
  rcases runs.andThen_cases with ⟨cut, _⟩ | ⟨error, _, failed⟩ |
    ⟨value, before, after, middle, first, rest, rfl⟩
  · simp at cut
  · exact ⟨_, failed⟩
  · obtain ⟨outcome, same⟩ := quiet value
    rw [same] at rest
    cases rest with
    | done => exact ⟨_, by rwa [List.append_nil]⟩

/-- A failed run of a fallible sequence fails in its first part or after it. -/
theorem Runs.andThen_error
    {next : α → Script ω ρ (Except ε β)}
    {error : ε}
    (runs : Runs world (script.andThen next) state (some (.error error)) calls final) :
    Runs world script state (some (.error error)) calls final ∨
      ∃ first before after middle,
        Runs world script state (some (.ok first)) before middle ∧
        Runs world (next first) middle (some (.error error)) after final ∧
        calls = before ++ after := by
  rcases runs.andThen_cases with ⟨cut, _⟩ | ⟨other, failed, first⟩ | succeeded
  · simp at cut
  · obtain rfl : error = other := by simpa using failed
    exact Or.inl first
  · exact Or.inr succeeded

/-- Make one call and decode its reply. -/
def ask (request : ω) (decode : ρ → α) : Script ω ρ α :=
  .call request fun reply => .done (decode reply)

/-- A complete run of a single call decodes the reply that the call's fate gives. -/
theorem Runs.ask_some
    {request : ω}
    {value : α}
    (runs : Runs world (ask request decode) state (some value) calls final) :
    ∃ fate, calls = [(world.settle state request fate).1] ∧
      final = (world.settle state request fate).2 ∧
      value = decode (world.settle state request fate).1.reply := by
  cases runs with
  | call fate rest =>
      cases rest with
      | done => exact ⟨fate, rfl, rfl, rfl⟩

section Blame

/-- A script that succeeds had no failing reply. -/
def Strict
    (world : World ω ρ η φ σ)
    (failing : ρ → Prop)
    (script : Script ω ρ (Except ε α)) : Prop :=
  ∀ (state : σ) (value : α) (calls : List (Call ω ρ)) (final : σ),
    Runs world script state (some (.ok value)) calls final →
      ∀ call ∈ calls, ¬failing call.reply

/-- A script that fails had a failing reply. -/
def Blames
    (world : World ω ρ η φ σ)
    (failing : ρ → Prop)
    (script : Script ω ρ (Except ε α)) : Prop :=
  ∀ (state : σ) (error : ε) (calls : List (Call ω ρ)) (final : σ),
    Runs world script state (some (.error error)) calls final →
      ∃ call ∈ calls, failing call.reply

variable {failing : ρ → Prop}

theorem Strict.ask
    {request : ω}
    {decode : ρ → Except ε α}
    (refuses : ∀ reply, failing reply → ∃ error, decode reply = .error error) :
    Strict world failing (ask request decode) := by
  intro state value calls final runs call member fails
  obtain ⟨fate, rfl, _, decoded⟩ := runs.ask_some
  rw [List.mem_singleton] at member
  obtain ⟨error, refused⟩ := refuses _ (member ▸ fails)
  simp [refused] at decoded

theorem Strict.andThen
    {next : α → Script ω ρ (Except ε β)}
    (first : Strict world failing script)
    (rest : ∀ value, Strict world failing (next value)) :
    Strict world failing (script.andThen next) := by
  intro state value calls final runs
  obtain ⟨middle, before, after, between, whole, continued, rfl⟩ := runs.andThen_ok
  rw [List.forall_mem_append]
  exact ⟨first _ _ _ _ whole, rest middle _ _ _ _ continued⟩

theorem Strict.tryEach
    (each : ∀ item, Strict world failing (action item))
    (items : List α) :
    Strict world failing (tryEach action items) := by
  induction items with
  | nil =>
      intro state value calls final runs
      cases runs with
      | done => simp
  | cons item items inductionHypothesis =>
      exact (each item).andThen fun _ => inductionHypothesis

theorem Blames.ask
    {request : ω}
    {decode : ρ → Except ε α}
    (reason : ∀ reply error, decode reply = .error error → failing reply) :
    Blames world failing (ask request decode) := by
  intro state error calls final runs
  obtain ⟨fate, rfl, _, decoded⟩ := runs.ask_some
  exact ⟨_, List.mem_singleton_self _, reason _ error decoded.symm⟩

theorem Blames.andThen
    {next : α → Script ω ρ (Except ε β)}
    (first : Blames world failing script)
    (rest : ∀ value, Blames world failing (next value)) :
    Blames world failing (script.andThen next) := by
  intro state error calls final runs
  rcases runs.andThen_error with failed | ⟨value, before, after, middle, _, failed, rfl⟩
  · exact first _ _ _ _ failed
  · obtain ⟨call, member, fails⟩ := rest value _ _ _ _ failed
    exact ⟨call, List.mem_append_right before member, fails⟩

theorem Blames.tryEach
    (each : ∀ item, Blames world failing (action item))
    (items : List α) :
    Blames world failing (tryEach action items) := by
  induction items with
  | nil =>
      intro state error calls final runs
      cases runs
  | cons item items inductionHypothesis =>
      exact (each item).andThen fun _ => inductionHypothesis

end Blame

section Uses

/-- Every call that a script may make is allowed. -/
def Uses (allowed : ω → Prop) : Script ω ρ α → Prop
  | .done _ => True
  | .call request next => allowed request ∧ ∀ reply, (next reply).Uses allowed

variable {allowed : ω → Prop}

theorem uses_of_forall
    (script : Script ω ρ α)
    (anything : ∀ request, allowed request) :
    script.Uses allowed := by
  induction script with
  | done value => trivial
  | call request next inductionHypothesis => exact ⟨anything request, inductionHypothesis⟩

theorem Uses.bind
    {script : Script ω ρ α}
    {next : α → Script ω ρ β}
    (first : script.Uses allowed)
    (rest : ∀ value, (next value).Uses allowed) :
    (script.bind next).Uses allowed := by
  induction script with
  | done value => exact rest value
  | call request next inductionHypothesis =>
      exact ⟨first.1, fun reply => inductionHypothesis reply (first.2 reply)⟩

theorem Uses.andThen
    {script : Script ω ρ (Except ε α)}
    {next : α → Script ω ρ (Except ε β)}
    (first : script.Uses allowed)
    (rest : ∀ value, (next value).Uses allowed) :
    (script.andThen next).Uses allowed := by
  refine first.bind fun outcome => ?_
  cases outcome with
  | error error => trivial
  | ok value => exact rest value

theorem Uses.tryEach
    {action : α → Script ω ρ (Except ε Unit)}
    {items : List α}
    (each : ∀ item ∈ items, (action item).Uses allowed) :
    (tryEach action items).Uses allowed := by
  induction items with
  | nil => trivial
  | cons item items inductionHypothesis =>
      rw [List.forall_mem_cons] at each
      exact each.1.andThen fun _ => inductionHypothesis each.2

theorem Uses.forEach
    {action : α → Script ω ρ Unit}
    (each : ∀ item ∈ items, (action item).Uses allowed) :
    (forEach action items).Uses allowed := by
  induction items with
  | nil => trivial
  | cons item items inductionHypothesis =>
      rw [List.forall_mem_cons] at each
      exact each.1.bind fun _ => inductionHypothesis each.2

theorem Uses.collect
    {action : α → Script ω ρ β}
    (each : ∀ item ∈ items, (action item).Uses allowed) :
    (collect action items).Uses allowed := by
  induction items with
  | nil => trivial
  | cons item items inductionHypothesis =>
      rw [List.forall_mem_cons] at each
      exact each.1.bind fun _ => (inductionHypothesis each.2).bind fun _ => trivial

/-- The calls of a run are among those that its script may make. -/
theorem Runs.requests_allowed
    (runs : Runs world script state result calls final)
    (uses : script.Uses allowed) :
    ∀ call ∈ calls, allowed call.request := by
  induction runs with
  | done => simp
  | stopped => simp
  | @call request next state final result calls fate _ inductionHypothesis =>
      rw [List.forall_mem_cons]
      rw [world.settle_request]
      exact ⟨uses.1, inductionHypothesis (uses.2 _)⟩

end Uses

/-- From every state that meets the precondition, a run whose calls are all legal
ends in the postcondition for its result. -/
def Triple
    (world : World ω ρ η φ σ)
    (legal : Call ω ρ → Prop)
    (before : σ → Prop)
    (script : Script ω ρ α)
    (after : Option α → σ → Prop) : Prop :=
  ∀ (state : σ) (result : Option α) (calls : List (Call ω ρ)) (final : σ),
    Runs world script state result calls final → (∀ call ∈ calls, legal call) →
      before state → after result final

section Triples

variable {legal : Call ω ρ → Prop} {before : σ → Prop}

/-- An invariant is kept by a sequence when it is kept by its parts. -/
theorem Triple.andThen
    {script : Script ω ρ (Except ε α)}
    {next : α → Script ω ρ (Except ε β)}
    (first : Triple world legal before script fun _ => before)
    (rest : ∀ value, Triple world legal before (next value) fun _ => before) :
    Triple world legal before (script.andThen next) fun _ => before := by
  intro state result calls final runs lawful holds
  rcases runs.andThen_cases with ⟨rfl, cut⟩ | ⟨error, rfl, refused⟩ |
    ⟨value, _, _, middle, whole, continued, rfl⟩
  · exact first _ _ _ _ cut lawful holds
  · exact first _ _ _ _ refused lawful holds
  · rw [List.forall_mem_append] at lawful
    exact rest value _ _ _ _ continued lawful.2 (first _ _ _ _ whole lawful.1 holds)

/-- An invariant that every allowed call keeps is kept by every run. -/
theorem Triple.of_uses
    (uses : script.Uses allowed)
    (kept : ∀ state request fate, allowed request →
      legal (world.settle state request fate).1 → before state →
        before (world.settle state request fate).2) :
    Triple world legal before script fun _ => before := by
  intro state result calls final runs lawful holds
  induction runs with
  | done => exact holds
  | stopped => exact holds
  | @call request next state final result calls fate _ inductionHypothesis =>
      rw [List.forall_mem_cons] at lawful
      exact inductionHypothesis (uses.2 _) lawful.2
        (kept state request fate uses.1 lawful.1 holds)

end Triples

end Script

end Control
