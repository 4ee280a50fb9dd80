import Jiji.Agent.DesiredHistory
import Jiji.Control.Machine

/-!
# Concurrent connections

An agent serves any number of connections at once, and each of them holds the lock of the
store for one section at a time.  A request with an idempotency key looks for a recorded
result in a first section, is executed in a second one and records its result in a third
one.  A request without a key has one section.
-/

namespace Jiji
namespace Agent

open Replication Control

section Sections

/-- How far a request has come. -/
inductive Stage (Result : Type)
  | arrived
  | missed
  | handled (result : Result)
  | answered (result : Result)
  deriving DecidableEq

/-- A request that a connection brought. -/
structure Connection (Body Result : Type) where
  key : Option String
  body : Body
  stage : Stage Result
  deriving DecidableEq

/-- What executing the body of a request does to a store. -/
def Handler (Store Body Result : Type) := ℕ → Store → Body → Result × Store

/-- An agent with the recorded results, the requests that it has received, and the keys of
the requests whose body it has executed. -/
structure Server (Store Body Result : Type) where
  store : Store
  responses : Std.ExtTreeMap String Result
  connections : List (Connection Body Result)
  executed : List (Option String)

/-- A request arrives, or one that has arrived goes through its next section. -/
inductive ServerEvent (Body : Type)
  | arrive (key : Option String) (body : Body)
  | proceed (connection usedBytes : ℕ)

variable {Store Body Result : Type}

namespace Server

/-- The recorded result of a key. -/
def idempotentGet (server : Server Store Body Result) (key : String) : Option Result :=
  server.responses[key]?

/-- Record the result of a key that has none. -/
def idempotentPut (server : Server Store Body Result) (key : String) (result : Result) :
    Server Store Body Result :=
  { server with responses := server.responses.insertIfNew key result }

/-- Let a connection reach its next stage. -/
def moveTo
    (server : Server Store Body Result)
    (position : ℕ)
    (connection : Connection Body Result)
    (stage : Stage Result) : Server Store Body Result :=
  { server with
    connections := server.connections.set position { connection with stage := stage } }

variable (handler : Handler Store Body Result)

/-- Execute the body of a request. -/
def execute
    (server : Server Store Body Result)
    (position usedBytes : ℕ)
    (connection : Connection Body Result)
    (stage : Result → Stage Result) : Server Store Body Result :=
  let (result, store) := handler usedBytes server.store connection.body
  { server.moveTo position connection (stage result) with
    store := store
    executed := server.executed ++ [connection.key] }

/-- Record the result of a request and answer it. -/
def conclude
    (server : Server Store Body Result)
    (position : ℕ)
    (connection : Connection Body Result)
    (key : String)
    (result : Result) : Server Store Body Result :=
  (server.moveTo position connection (.answered result)).idempotentPut key result

/-- The next section of a request. -/
def proceed
    (server : Server Store Body Result)
    (position usedBytes : ℕ)
    (connection : Connection Body Result) : Option (Server Store Body Result) :=
  match connection.stage, connection.key with
  | .arrived, none => some (server.execute handler position usedBytes connection .answered)
  | .arrived, some key =>
      match server.idempotentGet key with
      | some cached => some (server.moveTo position connection (.answered cached))
      | none => some (server.moveTo position connection .missed)
  | .missed, _ => some (server.execute handler position usedBytes connection .handled)
  | .handled result, some key => some (server.conclude position connection key result)
  | .handled _, none => none
  | .answered _, _ => none

def advance (server : Server Store Body Result) :
    ServerEvent Body → Option (Server Store Body Result)
  | .arrive key body =>
      some { server with connections := server.connections ++ [⟨key, body, .arrived⟩] }
  | .proceed position usedBytes =>
      server.connections[position]?.bind (server.proceed handler position usedBytes)

end Server

end Sections

section Frames

variable {Store Body Result : Type}

theorem Server.idempotentGet_put_other
    (server : Server Store Body Result)
    (result : Result)
    (different : other ≠ key) :
    (server.idempotentPut key result).idempotentGet other = server.idempotentGet other := by
  unfold Server.idempotentGet Server.idempotentPut
  rw [Std.ExtTreeMap.getElem?_insertIfNew, if_neg]
  rintro ⟨same, _⟩
  exact different (Std.LawfulEqOrd.eq_of_compare same).symm

theorem Server.idempotentGet_put_new
    (server : Server Store Body Result)
    (result : Result)
    (absent : server.idempotentGet key = none) :
    (server.idempotentPut key result).idempotentGet key = some result := by
  unfold Server.idempotentGet at absent
  unfold Server.idempotentGet Server.idempotentPut
  rw [Std.ExtTreeMap.getElem?_insertIfNew, if_pos]
  exact ⟨Std.ReflCmp.compare_self, by simpa using absent⟩

end Frames

section Once

variable {Store Body Result : Type}

/-- A request with a key has found no recorded result and has not recorded one yet. -/
def Connection.inFlight (key : String) (connection : Connection Body Result) : Bool :=
  connection.key = some key &&
    match connection.stage with
    | .missed => true
    | .handled _ => true
    | _ => false

/-- A request looks for a recorded result only while no other request with its key is
between its own lookup and its record. -/
def Server.Alone (server : Server Store Body Result) : ServerEvent Body → Prop
  | .arrive _ _ => True
  | .proceed position _ =>
      ∀ connection, server.connections[position]? = some connection →
        connection.stage = .arrived → ∀ key, connection.key = some key →
          ∀ other ∈ server.connections, other.inFlight key = false

/-- What has become of the requests with one key: nothing, one of them is on its way, or a
result is recorded. -/
inductive KeyPhase (Result : Type)
  | idle
  | missed (position : ℕ)
  | handled (position : ℕ) (result : Result)
  | recorded (result : Result)

namespace KeyPhase

/-- The recorded result of a phase. -/
def response : KeyPhase Result → Option Result
  | .recorded result => some result
  | _ => none

/-- The request that is on its way in a phase. -/
def position : KeyPhase Result → Option ℕ
  | .missed position => some position
  | .handled position _ => some position
  | _ => none

/-- How often a body has been executed at most. -/
def executions : KeyPhase Result → ℕ
  | .handled _ _ => 1
  | .recorded _ => 1
  | _ => 0

/-- The stages that a request may have in a phase. -/
def Permits (phase : KeyPhase Result) (position : ℕ) (stage : Stage Result) : Prop :=
  match phase with
  | .idle => stage = .arrived
  | .missed current => stage = if position = current then .missed else .arrived
  | .handled current result =>
      stage = if position = current then .handled result else .arrived
  | .recorded result => stage = .arrived ∨ stage = .answered result

/-- A phase describes the requests with a key. -/
structure Describes
    (phase : KeyPhase Result)
    (key : String)
    (server : Server Store Body Result) : Prop where
  response : server.idempotentGet key = phase.response
  executions : server.executed.count (some key) ≤ phase.executions
  present : ∀ position, phase.position = some position →
    ∃ connection, server.connections[position]? = some connection ∧ connection.key = some key
  stages : ∀ position connection, server.connections[position]? = some connection →
    connection.key = some key → phase.Permits position connection.stage

variable {phase next : KeyPhase Result} {key : String} {place usedBytes : ℕ}
variable {server reached : Server Store Body Result} {connection : Connection Body Result}
variable {handler : Handler Store Body Result}

/-- A request that is not on its way may wait, unless a phase says otherwise. -/
theorem permits_arrived (elsewhere : phase.position ≠ some place) :
    phase.Permits place .arrived := by
  cases phase with
  | idle => rfl
  | missed current => simp_all [KeyPhase.Permits, KeyPhase.position, eq_comm]
  | handled current result => simp_all [KeyPhase.Permits, KeyPhase.position, eq_comm]
  | recorded result => exact Or.inl rfl

/-- A new request joins those that wait. -/
theorem Describes.arrive
    (describes : phase.Describes key server)
    (newKey : Option String)
    (body : Body) :
    phase.Describes key
      { server with connections := server.connections ++ [⟨newKey, body, .arrived⟩] } where
  response := describes.response
  executions := describes.executions
  present position current := by
    obtain ⟨connection, found, keyed⟩ := describes.present position current
    exact ⟨connection, List.getElem?_append_left (List.getElem?_eq_some_iff.mp found).1 ▸ found,
      keyed⟩
  stages position connection found keyed := by
    by_cases old : position < server.connections.length
    · rw [List.getElem?_append_left old] at found
      exact describes.stages position connection found keyed
    · have last : connection = ⟨newKey, body, .arrived⟩ := by
        rw [List.getElem?_append_right (not_lt.mp old)] at found
        exact (List.mem_singleton.mp (List.mem_of_getElem? found))
      subst last
      refine permits_arrived fun current => ?_
      obtain ⟨_, present, _⟩ := describes.present position current
      exact old (List.getElem?_eq_some_iff.mp present).1

/-- One request moves on to a stage. -/
theorem Describes.move
    (describes : phase.Describes key server)
    (found : server.connections[place]? = some connection)
    (connections : reached.connections =
      server.connections.set place { connection with stage := stage })
    (response : reached.idempotentGet key = next.response)
    (executions : reached.executed.count (some key) ≤ next.executions)
    (moves : connection.key = some key → next.Permits place stage)
    (others : ∀ position stage, position ≠ place → phase.Permits position stage →
      next.Permits position stage)
    (present : ∀ position, next.position = some position →
      phase.position = some position ∨ position = place ∧ connection.key = some key) :
    next.Describes key reached where
  response := response
  executions := executions
  present position current := by
    have inside := (List.getElem?_eq_some_iff.mp found).1
    have stays : ∀ old, server.connections[position]? = some old → old.key = some key →
        ∃ connection, reached.connections[position]? = some connection ∧
          connection.key = some key := by
      intro old oldFound keyed
      rw [connections, List.getElem?_set]
      by_cases same : place = position
      · subst same
        obtain rfl := Option.some.inj (found.symm.trans oldFound)
        exact ⟨{ connection with stage := stage }, by rw [if_pos rfl, if_pos inside], keyed⟩
      · exact ⟨old, by rw [if_neg same, oldFound], keyed⟩
    rcases present position current with earlier | ⟨rfl, keyed⟩
    · obtain ⟨old, oldFound, keyed⟩ := describes.present position earlier
      exact stays old oldFound keyed
    · exact stays connection found keyed
  stages position moved movedFound keyed := by
    rw [connections, List.getElem?_set] at movedFound
    by_cases same : place = position
    · subst same
      rw [if_pos rfl] at movedFound
      split at movedFound
      · obtain rfl := Option.some.inj movedFound
        exact moves keyed
      · cases movedFound
    · rw [if_neg same] at movedFound
      exact others position _ (Ne.symm same) (describes.stages position moved movedFound keyed)

/-- A request with another key changes nothing. -/
theorem Describes.of_other
    (describes : phase.Describes key server)
    (found : server.connections[place]? = some connection)
    (different : connection.key ≠ some key)
    (connections : reached.connections =
      server.connections.set place { connection with stage := stage })
    (response : reached.idempotentGet key = server.idempotentGet key)
    (executions : reached.executed.count (some key) = server.executed.count (some key)) :
    phase.Describes key reached :=
  describes.move found connections (response.trans describes.response)
    (executions.le.trans describes.executions) (fun keyed => absurd keyed different)
    (fun _ _ _ permitted => permitted) fun _ current => Or.inl current

/-- The requests with a key are described after another request has moved on. -/
theorem Describes.proceed_other
    (describes : phase.Describes key server)
    (found : server.connections[place]? = some connection)
    (different : connection.key ≠ some key)
    (proceeds : server.proceed handler place usedBytes connection = some reached) :
    phase.Describes key reached := by
  have executed : (server.executed ++ [connection.key]).count (some key) =
      server.executed.count (some key) := by
    simp [List.count_append, different]
  unfold Server.proceed at proceeds
  split at proceeds
  · obtain rfl := Option.some.inj proceeds
    exact describes.of_other found different rfl rfl executed
  · split at proceeds
    · obtain rfl := Option.some.inj proceeds
      exact describes.of_other found different rfl rfl rfl
    · obtain rfl := Option.some.inj proceeds
      exact describes.of_other found different rfl rfl rfl
  · obtain rfl := Option.some.inj proceeds
    exact describes.of_other found different rfl rfl executed
  · rename_i otherKey _ keyed
    obtain rfl := Option.some.inj proceeds
    refine describes.of_other found different rfl ?_ rfl
    refine Server.idempotentGet_put_other _ _ ?_
    rintro rfl
    exact different keyed
  · cases proceeds
  · cases proceeds

/-- While a request is on its way, it is in flight. -/
theorem Describes.exists_inFlight
    {position : ℕ}
    (describes : phase.Describes key server)
    (current : phase.position = some position) :
    ∃ other ∈ server.connections, other.inFlight key = true := by
  obtain ⟨other, found, keyed⟩ := describes.present position current
  have permitted := describes.stages position other found keyed
  refine ⟨other, List.mem_of_getElem? found, ?_⟩
  cases phase with
  | idle => cases current
  | recorded result => cases current
  | missed place =>
      obtain rfl := Option.some.inj current
      rw [KeyPhase.Permits, if_pos rfl] at permitted
      simp [Connection.inFlight, keyed, permitted]
  | handled place result =>
      obtain rfl := Option.some.inj current
      rw [KeyPhase.Permits, if_pos rfl] at permitted
      simp [Connection.inFlight, keyed, permitted]

/-- A lookup that finds nothing puts a request on its way, if no other one is. -/
theorem Describes.lookup
    (describes : phase.Describes key server)
    (found : server.connections[place]? = some connection)
    (keyed : connection.key = some key)
    (alone : ∀ other ∈ server.connections, other.inFlight key = false)
    (absent : server.idempotentGet key = none) :
    (KeyPhase.missed place).Describes key (server.moveTo place connection .missed) := by
  have idle : phase = .idle := by
    cases phase with
    | idle => rfl
    | recorded result => simp [describes.response, KeyPhase.response] at absent
    | missed position =>
        obtain ⟨other, member, flying⟩ := describes.exists_inFlight rfl
        simp [alone other member] at flying
    | handled position result =>
        obtain ⟨other, member, flying⟩ := describes.exists_inFlight rfl
        simp [alone other member] at flying
  subst idle
  refine describes.move found rfl absent describes.executions (fun _ => ?_) ?_ ?_
  · simp [KeyPhase.Permits]
  · intro position stage different permitted
    simpa [KeyPhase.Permits, different] using permitted
  · intro position current
    exact Or.inr ⟨(Option.some.inj current).symm, keyed⟩

/-- The request that is on its way executes its body. -/
theorem Describes.execute
    (describes : phase.Describes key server)
    (found : server.connections[place]? = some connection)
    (keyed : connection.key = some key)
    (missed : connection.stage = .missed) :
    ∃ result, (KeyPhase.handled place result).Describes key
      (server.execute handler place usedBytes connection .handled) := by
  have permitted := describes.stages place connection found keyed
  rw [missed] at permitted
  cases phase with
  | idle => cases permitted
  | recorded result => rcases permitted with impossible | impossible <;> cases impossible
  | handled position result =>
      rw [KeyPhase.Permits] at permitted
      split at permitted <;> cases permitted
  | missed position =>
      rw [KeyPhase.Permits] at permitted
      split at permitted
      swap
      · cases permitted
      rename_i same
      subst same
      refine ⟨(handler usedBytes server.store connection.body).1,
        describes.move found rfl ?_ ?_ (fun _ => ?_) ?_ ?_⟩
      · exact describes.response
      · have before : server.executed.count (some key) ≤ 0 := describes.executions
        have counted : (server.executed ++ [connection.key]).count (some key) = 1 := by
          rw [keyed, List.count_append, Nat.le_zero.mp before]
          simp
        exact counted.le
      · rw [KeyPhase.Permits, if_pos rfl]
      · intro position stage different permitted
        simpa [KeyPhase.Permits, different] using permitted
      · intro position current
        exact Or.inr ⟨(Option.some.inj current).symm, keyed⟩

/-- The request that is on its way records its result. -/
theorem Describes.conclude
    {result : Result}
    (describes : phase.Describes key server)
    (found : server.connections[place]? = some connection)
    (keyed : connection.key = some key)
    (handled : connection.stage = .handled result) :
    (KeyPhase.recorded result).Describes key
      (server.conclude place connection key result) := by
  have permitted := describes.stages place connection found keyed
  rw [handled] at permitted
  cases phase with
  | idle => cases permitted
  | recorded result => rcases permitted with impossible | impossible <;> cases impossible
  | missed position =>
      rw [KeyPhase.Permits] at permitted
      split at permitted <;> cases permitted
  | handled position result =>
      rw [KeyPhase.Permits] at permitted
      split at permitted
      swap
      · cases permitted
      rename_i same
      subst same
      cases permitted
      refine describes.move found rfl ?_ describes.executions (fun _ => Or.inr rfl) ?_ ?_
      · exact Server.idempotentGet_put_new _ _ describes.response
      · intro position stage different permitted
        rw [KeyPhase.Permits, if_neg different] at permitted
        exact Or.inl permitted
      · intro position current
        cases current

/-- Some phase describes the requests with a key. -/
def Described (key : String) (server : Server Store Body Result) : Prop :=
  ∃ phase : KeyPhase Result, phase.Describes key server

/-- A request moves the description of its own key on. -/
theorem Describes.proceed_own
    (describes : phase.Describes key server)
    (found : server.connections[place]? = some connection)
    (keyed : connection.key = some key)
    (alone : connection.stage = .arrived →
      ∀ other ∈ server.connections, other.inFlight key = false)
    (proceeds : server.proceed handler place usedBytes connection = some reached) :
    Described key reached := by
  cases stage : connection.stage with
  | arrived =>
      simp only [Server.proceed, stage, keyed] at proceeds
      cases cached : server.idempotentGet key with
      | none =>
          rw [cached] at proceeds
          obtain rfl := Option.some.inj proceeds
          exact ⟨_, describes.lookup found keyed (alone stage) cached⟩
      | some result =>
          rw [cached] at proceeds
          obtain rfl := Option.some.inj proceeds
          have recorded := describes.response.symm.trans cached
          cases phase with
          | recorded other =>
              obtain rfl := Option.some.inj recorded
              refine ⟨.recorded other, describes.move found rfl cached describes.executions
                (fun _ => Or.inr rfl) (fun _ _ _ permitted => permitted) ?_⟩
              exact fun _ current => Or.inl current
          | idle => cases recorded
          | missed position => cases recorded
          | handled position other => cases recorded
  | missed =>
      simp only [Server.proceed, stage] at proceeds
      obtain rfl := Option.some.inj proceeds
      obtain ⟨result, executed⟩ := describes.execute found keyed stage
      exact ⟨_, executed⟩
  | handled result =>
      simp only [Server.proceed, stage, keyed] at proceeds
      obtain rfl := Option.some.inj proceeds
      exact ⟨_, describes.conclude found keyed stage⟩
  | answered result =>
      simp [Server.proceed, stage] at proceeds

/-- Every section keeps the requests with a key described. -/
theorem Describes.advance
    {event : ServerEvent Body}
    (describes : phase.Describes key server)
    (alone : server.Alone event)
    (advanced : server.advance handler event = some reached) :
    Described key reached := by
  cases event with
  | arrive newKey body =>
      obtain rfl := Option.some.inj advanced
      exact ⟨phase, describes.arrive newKey body⟩
  | proceed position usedBytes =>
      obtain ⟨connection, found, proceeds⟩ := Option.bind_eq_some_iff.mp advanced
      by_cases keyed : connection.key = some key
      · exact describes.proceed_own found keyed
          (fun stage => alone connection found stage key keyed) proceeds
      · exact ⟨phase, describes.proceed_other found keyed proceeds⟩

theorem Describes.answered
    {result : Result}
    (describes : phase.Describes key server)
    (member : connection ∈ server.connections)
    (keyed : connection.key = some key)
    (answered : connection.stage = .answered result) :
    phase = .recorded result := by
  obtain ⟨position, found⟩ := List.mem_iff_getElem?.mp member
  have permitted := describes.stages position connection found keyed
  rw [answered] at permitted
  cases phase with
  | idle => cases permitted
  | missed current =>
      rw [KeyPhase.Permits] at permitted
      split at permitted <;> cases permitted
  | handled current other =>
      rw [KeyPhase.Permits] at permitted
      split at permitted <;> cases permitted
  | recorded other =>
      rcases permitted with impossible | same
      · cases impossible
      · cases same
        rfl

end KeyPhase

end Once

section Agent

/-- The requests of an agent. -/
def AgentApi.handler (hash : ContentHash) : Handler AgentApi RequestBody ApiResult :=
  fun usedBytes api body => api.handle hash usedBytes body

/-- Executing a request neither reads nor writes the recorded results. -/
theorem AgentApi.handle_withResponses
    (hash : ContentHash)
    (usedBytes : ℕ)
    (api : AgentApi)
    (responses : Std.ExtTreeMap String ApiResult)
    (body : RequestBody) :
    { api with responses := responses }.handle hash usedBytes body =
      ((api.handle hash usedBytes body).1,
        { (api.handle hash usedBytes body).2 with responses := responses }) := by
  cases body with
  | compact => rfl
  | catalogList => rfl
  | allocateAddress deploymentId replicaId subnet reserved timestamp => rfl
  | releaseAddress deploymentId timestamp => rfl
  | desiredRead service => rfl
  | imageRetentionList => rfl
  | desiredCommit service scaleOverride =>
      simp only [AgentApi.handle]
      split
      · rfl
      · split <;> rfl
  | catalogCommit commit =>
      simp only [AgentApi.handle]
      split
      · rfl
      · split <;> rfl

/-- A server whose last request is the given one. -/
def Server.holding
    {Store Body Result : Type}
    (server : Server Store Body Result)
    (connection : Connection Body Result) : Server Store Body Result :=
  { server with connections := server.connections ++ [connection] }

/-- An agent that has one member, itself, and serves two requests with one key. -/
def sampleServer : Server AgentApi RequestBody ApiResult where
  store :=
    { store := (AgentStore.empty.setSoftQuotaBytes none).follow AgentStore.historyHash
        ⟨"p", 1, "a"⟩ [.membershipPush 0 (sampleMember "a" "alpha" 1 1 1 .active)]
      leases := .empty
      responses := ∅
      retentionSpecs := []
      catalogIdentity := some ⟨"p", 1, "a"⟩ }
  responses := ∅
  connections := []
  executed := []

/-- The condition on a section, decided. -/
def Server.alone
    {Store Body Result : Type}
    (server : Server Store Body Result) : ServerEvent Body → Bool
  | .arrive _ _ => true
  | .proceed position _ =>
      server.connections[position]?.all fun connection =>
        match connection.stage, connection.key with
        | .arrived, some key => server.connections.all fun other => !other.inFlight key
        | _, _ => true

end Agent

end Agent
end Jiji
