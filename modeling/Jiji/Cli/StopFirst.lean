import Jiji.Cli.DeployRecovery
import Jiji.Control.Machine
import Jiji.Control.Protocol

/-!
# Stop-first deployments beside the reconciler

A service with `stop_first` must not have two instances at once: a run stops the
previous container before it starts the candidate's.  The agent's reconciler works on
the same containers, and between two calls of the run it may observe the containers,
read the catalog and start what the catalog wants.  The two containers exclude each
other as long as no tick starts the previous container while the run replaces it, and
the removal of a failed candidate reaches the host.
-/

namespace Jiji
namespace Cli

open Network Agent Control Replication

section System

/-- How far a tick of the reconciler came. -/
inductive Tick
  | idle
  | observed (observations : List Observation)
  | starting (names : List String)

/-- A host with a deployment that is underway and a reconciler. -/
structure SharedHost where
  host : Host
  remaining : Remote (Except DeployError Deployed)
  calls : List (Call Request Reply)
  tick : Tick

/-- What happens next on a shared host: a call of the deployment, or a step of a tick. -/
inductive SharedEvent
  | call (fate : Fate Conditions DeployError)
  | discover (observations : List Observation)
  | read (startupCandidates : List String)
  | start
  | finish

namespace SharedHost

/-- The deployment makes its next call. -/
def makeCall (hash : ContentHash) (shared : SharedHost) (fate : Fate Conditions DeployError) :
    Option SharedHost :=
  match shared.remaining with
  | .done _ => none
  | .call request next =>
      let (made, host) := (hostWorld hash).settle shared.host request fate
      some { shared with
        host := host
        remaining := next made.reply
        calls := shared.calls ++ [made] }

/-- The tick starts its next container; it ends at the first failure. -/
def startNext (shared : SharedHost) : Option SharedHost :=
  match shared.tick with
  | .starting (name :: names) =>
      let (reply, host) := shared.host.setRunning name true
      some { shared with
        host := host
        tick := match reply with
          | .ok _ => .starting names
          | .error _ => .idle }
  | _ => none

/-- One event on a shared host.  The engine lists the containers in any order, and a
tick may end early with an error. -/
def advance (hash : ContentHash) (project nodeId : String) (shared : SharedHost) :
    SharedEvent → Option SharedHost
  | .call fate => shared.makeCall hash fate
  | .discover observations =>
      match shared.tick with
      | .idle =>
          if observations.Perm (Agent.discover project shared.host.containers) then
            some { shared with tick := .observed observations }
          else none
      | _ => none
  | .read startupCandidates =>
      match shared.tick with
      | .observed observations =>
          some { shared with
            tick := .starting (restartCandidates nodeId observations
              shared.host.api.store.latestCatalog startupCandidates) }
      | _ => none
  | .start => shared.startNext
  | .finish => some { shared with tick := .idle }

/-- A deployment that is about to begin. -/
def launch
    (digest : String → String)
    (ctx : EndpointDeploymentContext)
    (clock : Clock)
    (host : Host)
    (tick : Tick) : SharedHost :=
  ⟨host, deployDynamicEndpoint ctx clock digest, [], tick⟩

end SharedHost

/-- The runs of a deployment beside the reconciler of a node. -/
def sharedMachine (hash : ContentHash) (project nodeId : String) :
    Machine SharedHost SharedEvent where
  advance := SharedHost.advance hash project nodeId

end System

section Stages

/-- The stages of a stop-first run.  It replaces the previous container from the
confirmed stop of it until it removes the candidate's; a run that was told of another
catalog than the host's is misled. -/
inductive Stage
  | listing
  | serving
  | replacing
  | restored
  | misled
  deriving DecidableEq

/-- What a stop-first run may do at each stage. -/
def exchange (records : List CatalogRecord) (previousName candidateName : String) :
    Protocol Request Reply Stage where
  allowed
    | .listing, request => request = .agent none .catalogList
    | .replacing, .start name => name ≠ previousName
    | .replacing, .createAndStart run => run.name = candidateName
    | .serving, .createAndStart _ | .restored, .createAndStart _ => False
    | _, _ => True
  after
    | .listing, _, reply =>
        match decodeCatalog reply with
        | .ok listed => if listed = records then .serving else .misled
        | .error _ => .serving
    | .serving, .stop name, .ok _ => if name = previousName then .replacing else .serving
    | .replacing, .removeIfPresent name, _ =>
        if name = candidateName then .restored else .replacing
    | stage, _, _ => stage

variable (records : List CatalogRecord) (previousName candidateName : String)

/-- The stage that a run is in after the calls it made. -/
def stageOf (calls : List (Call Request Reply)) : Stage :=
  calls.foldl (fun stage call =>
    (exchange records previousName candidateName).after stage call.request call.reply) .listing

/-- No tick starts the previous container while the run replaces it, and the removal of
the candidate's container reaches the host. -/
def Undisturbed (shared : SharedHost) : SharedEvent → Prop
  | .start => stageOf records previousName candidateName shared.calls = .replacing →
      ∀ names, shared.tick ≠ .starting (previousName :: names)
  | .call (.unreached _) =>
      ∀ next, shared.remaining ≠ .call (.removeIfPresent candidateName) next
  | _ => True

/-- What a stage says about the host. -/
def Stage.Holds (host : Host) : Stage → Prop
  | .listing => host.api.store.latestCatalog = records ∧ host.containers[candidateName]? = none
  | .serving | .restored => host.containers[candidateName]? = none
  | .replacing => ¬Running host.containers previousName
  | .misled => False

variable {records previousName candidateName}

/-- At every stage, at most one of the two containers runs. -/
theorem Stage.Holds.exclusive
    {stage : Stage}
    (holds : stage.Holds records previousName candidateName host) :
    ¬(Running host.containers previousName ∧ Running host.containers candidateName) := by
  rintro ⟨previousRuns, candidateRuns⟩
  have present : host.containers[candidateName]? ≠ none := by
    intro absent
    simp [Running, absent] at candidateRuns
  cases stage with
  | listing => exact present holds.2
  | serving => exact present holds
  | replacing => exact holds previousRuns
  | restored => exact present holds
  | misled => exact holds

end Stages

section Effects

variable {hash : ContentHash} {conditions : Conditions} {host : Host}

theorem setRunning_containers (host : Host) (name : String) (running : Bool) :
    (host.setRunning name running).2.containers[name]? =
      host.containers[name]?.map fun container => { container with running := running } := by
  unfold Host.setRunning
  split
  · simp_all
  · simp_all

/-- What a call does to the container of a name: nothing, remove it, start or stop it, or
create it. -/
theorem perform_containers (request : Request) (name : String) :
    (Host.perform hash conditions host request).2.containers[name]? =
        host.containers[name]? ∨
      (request = .removeIfPresent name ∧
        (Host.perform hash conditions host request).2.containers[name]? = none) ∨
      (∃ running, request = (if running then .start name else .stop name) ∧
        (Host.perform hash conditions host request).2.containers[name]? =
          host.containers[name]?.map fun container =>
            { container with running := running }) ∨
      ∃ run, request = .createAndStart run ∧ run.name = name := by
  cases request with
  | stop target =>
      rcases eq_or_ne name target with rfl | different
      · exact Or.inr (Or.inr (Or.inl ⟨false, rfl, setRunning_containers host name false⟩))
      · exact Or.inl ((setRunning_frame host target false).2 name different)
  | start target =>
      rcases eq_or_ne name target with rfl | different
      · exact Or.inr (Or.inr (Or.inl ⟨true, rfl, setRunning_containers host name true⟩))
      · exact Or.inl ((setRunning_frame host target true).2 name different)
  | removeIfPresent target =>
      rcases eq_or_ne name target with rfl | different
      · exact Or.inr (Or.inl ⟨rfl, by simp [Host.perform]⟩)
      · refine Or.inl ?_
        simp [Host.perform, Std.ExtTreeMap.getElem?_erase, different.symm]
  | createAndStart run =>
      rcases eq_or_ne name run.name with rfl | different
      · exact Or.inr (Or.inr (Or.inr ⟨run, rfl, rfl⟩))
      · exact Or.inl ((create_frame host conditions run).2 name different)
  | waitUntilHealthy target =>
      refine Or.inl ?_
      simp only [Host.perform]
      split <;> rfl
  | _ => exact Or.inl rfl

/-- A container that does not exist comes into existence only when it is created. -/
theorem absent_of_perform
    (absent : host.containers[name]? = none)
    (notCreated : ∀ run, request = .createAndStart run → run.name ≠ name) :
    (Host.perform hash conditions host request).2.containers[name]? = none := by
  rcases perform_containers request name with
    same | ⟨_, removed⟩ | ⟨running, _, changed⟩ | ⟨run, rfl, named⟩
  · rw [same, absent]
  · exact removed
  · rw [changed, absent]
    rfl
  · exact absurd named (notCreated run rfl)

/-- A container that does not run begins to run only when it is started or created. -/
theorem idle_of_perform
    (idle : ¬Running host.containers name)
    (notStarted : request ≠ .start name)
    (notCreated : ∀ run, request = .createAndStart run → run.name ≠ name) :
    ¬Running (Host.perform hash conditions host request).2.containers name := by
  rcases perform_containers request name with
    same | ⟨_, removed⟩ | ⟨running, asked, changed⟩ | ⟨run, rfl, named⟩
  · rwa [Running, same]
  · simp [Running, removed]
  · cases running with
    | true => exact absurd asked notStarted
    | false => cases found : host.containers[name]? <;> simp [Running, changed, found]
  · exact absurd named (notCreated run rfl)

/-- A call that is not a creation of a container leaves it absent, whatever its fate. -/
theorem absent_of_settle
    (absent : host.containers[name]? = none)
    (notCreated : ∀ run, request = .createAndStart run → run.name ≠ name) :
    ((hostWorld hash).settle host request fate).2.containers[name]? = none := by
  rcases (hostWorld hash).settle_state host request fate with same | ⟨conditions, same, _⟩
  · rwa [same]
  · rw [same]
    exact absent_of_perform absent notCreated

/-- A call that neither starts nor creates a container leaves it idle, whatever its
fate. -/
theorem idle_of_settle
    (idle : ¬Running host.containers name)
    (notStarted : request ≠ .start name)
    (notCreated : ∀ run, request = .createAndStart run → run.name ≠ name) :
    ¬Running ((hostWorld hash).settle host request fate).2.containers name := by
  rcases (hostWorld hash).settle_state host request fate with same | ⟨conditions, same, _⟩
  · rwa [same]
  · rw [same]
    exact idle_of_perform idle notStarted notCreated

/-- A confirmed stop leaves a container idle. -/
theorem idle_of_stop
    (replied : ((hostWorld hash).settle host (.stop name) fate).1.reply = .ok response) :
    ¬Running ((hostWorld hash).settle host (.stop name) fate).2.containers name := by
  obtain ⟨_, conditions, performed⟩ := performed_of_ok replied
  obtain ⟨container, _, stopped⟩ := setRunning_ok performed
  simp [Running, stopped]

/-- A removal that reaches the host leaves no container. -/
theorem absent_of_removal
    (reached : ∀ reason, fate ≠ .unreached reason) :
    ((hostWorld hash).settle host (.removeIfPresent name) fate).2.containers[name]? = none := by
  cases fate with
  | answered conditions => simp [World.settle, hostWorld, Host.perform]
  | lost conditions reason => simp [World.settle, hostWorld, Host.perform]
  | unreached reason => exact absurd rfl (reached reason)

/-- A listing that succeeds returns the catalog. -/
theorem listed_of_settle
    (decoded : decodeCatalog
      ((hostWorld hash).settle host (.agent none .catalogList) fate).1.reply = .ok listed) :
    listed = host.api.store.latestCatalog := by
  obtain ⟨_, conditions, performed⟩ := performed_of_ok (ok_of_decodeCatalog decoded)
  simp only [Host.perform, Host.askAgent, AgentApi.handleIdempotent, AgentApi.handle, replyOf,
    Prod.mk.injEq] at performed
  simpa using performed.1.symm

end Effects

section Steps

variable {host : Host} {stage : Stage}
variable {records : List CatalogRecord} {previousName candidateName : String}

/-- An allowed call keeps what its stage says, for the stage that follows. -/
theorem Stage.Holds.settle
    (hash : ContentHash)
    (holds : stage.Holds records previousName candidateName host)
    (distinct : candidateName ≠ previousName)
    (allowed : (exchange records previousName candidateName).allowed stage request)
    (reached : request = .removeIfPresent candidateName → ∀ reason, fate ≠ .unreached reason) :
    ((exchange records previousName candidateName).after stage request
        ((hostWorld hash).settle host request fate).1.reply).Holds
      records previousName candidateName ((hostWorld hash).settle host request fate).2 := by
  cases stage with
  | listing =>
      obtain rfl : request = .agent none .catalogList := allowed
      have absent : ((hostWorld hash).settle host (.agent none .catalogList) fate).2.containers[
          candidateName]? = none :=
        absent_of_settle holds.2 (by simp)
      cases decoded : decodeCatalog
          ((hostWorld hash).settle host (.agent none .catalogList) fate).1.reply with
      | error error =>
          simp only [exchange, decoded]
          exact absent
      | ok listed =>
          have same : listed = records := (listed_of_settle decoded).trans holds.1
          simp only [exchange, decoded, same, if_true]
          exact absent
  | serving =>
      have absent : ((hostWorld hash).settle host request fate).2.containers[
          candidateName]? = none := by
        refine absent_of_settle holds ?_
        rintro run rfl
        exact allowed.elim
      cases request with
      | stop name =>
          cases replied : ((hostWorld hash).settle host (.stop name) fate).1.reply with
          | error error => exact absent
          | ok response =>
              simp only [exchange]
              split
              · rename_i same
                rw [same] at replied ⊢
                exact idle_of_stop replied
              · exact absent
      | _ => exact absent
  | replacing =>
      have idle : ¬Running ((hostWorld hash).settle host request fate).2.containers
          previousName := by
        refine idle_of_settle holds ?_ ?_
        · rintro rfl
          exact allowed rfl
        · rintro run rfl
          exact fun same => distinct (Eq.trans (Eq.symm allowed) same)
      cases request with
      | removeIfPresent name =>
          simp only [exchange]
          split
          · rename_i same
            rw [same] at reached ⊢
            exact absent_of_removal (reached rfl)
          · exact idle
      | _ => exact idle
  | restored =>
      refine absent_of_settle holds ?_
      rintro run rfl
      exact allowed.elim
  | misled => exact holds.elim

/-- A start by a tick keeps what the stage says, unless it starts the previous container
while it is replaced. -/
theorem Stage.Holds.setRunning
    (hash : ContentHash)
    (holds : stage.Holds records previousName candidateName host)
    (undisturbed : stage = .replacing → name ≠ previousName) :
    stage.Holds records previousName candidateName (host.setRunning name true).2 := by
  have performed : Host.perform hash ⟨0, "", true⟩ host (.start name) =
    host.setRunning name true := rfl
  have absent (missing : host.containers[candidateName]? = none) :
      (host.setRunning name true).2.containers[candidateName]? = none := by
    rw [← performed]
    exact absent_of_perform missing (by simp)
  cases stage with
  | listing => exact ⟨by rw [(setRunning_frame host name true).1]; exact holds.1, absent holds.2⟩
  | serving => exact absent holds
  | restored => exact absent holds
  | replacing =>
      rw [← performed]
      exact idle_of_perform holds (by simpa using undisturbed rfl) (by simp)
  | misled => exact holds

end Steps

section Script

variable {ctx : EndpointDeploymentContext} {clock : Clock} {deploymentId : String}
variable {records : List CatalogRecord} {previousName : String} {address : Ipv4Addr}
variable {previous : Option CatalogRecord}

/-- While it replaces the previous container, a run stays at it with calls that neither
start a container nor remove the candidate's. -/
theorem follows_replacing
    {α : Type}
    {script : Remote α}
    (uses : script.Uses fun request =>
      Quiet request ∧ request ≠ .removeIfPresent candidateName) :
    Script.Follows (exchange records previousName candidateName) .replacing script
      fun _ stage => stage = .replacing := by
  refine .of_uses uses ?_ ?_ rfl
  · rintro _ request rfl ⟨quiet, _⟩
    cases request with
    | start | createAndStart => exact quiet.elim
    | _ => trivial
  · rintro _ request reply rfl ⟨_, kept⟩
    cases request with
    | removeIfPresent name => exact if_neg fun same => kept (congrArg _ same)
    | _ => rfl

/-- At the end of a run, calls that start no container are always allowed. -/
theorem follows_quiet
    {α : Type}
    {script : Remote α}
    {stage : Stage}
    (uses : script.Uses Quiet)
    (inside : stage = .replacing ∨ stage = .restored) :
    Script.Follows (exchange records previousName candidateName) stage script
      fun _ stage => stage = .replacing ∨ stage = .restored := by
  refine .of_uses uses ?_ ?_ inside
  · rintro _ request (rfl | rfl) quiet
    all_goals
      cases request with
      | start | createAndStart => exact quiet.elim
      | _ => trivial
  · rintro _ request reply (rfl | rfl) _
    · cases request with
      | removeIfPresent name =>
          simp only [exchange]
          split <;> simp
      | _ => exact Or.inl rfl
    · exact Or.inr rfl

/-- After the candidate's container was removed, every call is allowed that creates
none. -/
theorem follows_restored
    {α : Type}
    {script : Remote α}
    (uses : script.Uses fun request => ∀ run, request ≠ .createAndStart run) :
    Script.Follows (exchange records previousName candidateName) .restored script
      fun _ stage => stage = .restored := by
  refine .of_uses uses ?_ ?_ rfl
  · rintro _ request rfl creates
    cases request with
    | createAndStart run => exact absurd rfl (creates run)
    | _ => trivial
  · rintro _ request reply rfl _
    rfl

theorem uses_restoreStopFirst {allowed : Request → Prop} (starts : ∀ name, allowed (.start name)) :
    (restoreStopFirst ctx previous).Uses allowed := by
  unfold restoreStopFirst
  split
  · exact Script.Uses.bind (uses_command (starts _)) fun _ => trivial
  · trivial

/-- A guarded action that stays at the replacement either completes there, or the run
removes the candidate before it starts the previous container again. -/
theorem follows_guarded
    {action : Remote (Except DeployError Unit)}
    (first : Script.Follows (exchange records previousName (containerName ctx deploymentId))
      .replacing action fun _ stage => stage = .replacing) :
    Script.Follows (exchange records previousName (containerName ctx deploymentId)) .replacing
      (guarded ctx clock deploymentId address previous action)
      fun outcome stage => outcome = .ok () → stage = .replacing := by
  refine first.bind fun outcome stage ended => ?_
  subst ended
  cases outcome with
  | ok value => exact fun _ => rfl
  | error error =>
      refine ⟨trivial, fun reply => ?_⟩
      rw [show (exchange records previousName (containerName ctx deploymentId)).after .replacing
        (.removeIfPresent (containerName ctx deploymentId)) reply = .restored from if_pos rfl]
      refine Script.Follows.bind (follows_restored ?_) fun _ stage restored => ?_
      · refine Script.Uses.bind trivial fun _ => Script.Uses.bind ?_ fun _ =>
          Script.Uses.bind ?_ fun _ => trivial
        · rw [commitCatalog_eq_ask]
          exact ⟨by simp [commitRequest], fun _ => trivial⟩
        · exact ⟨by simp, fun _ => trivial⟩
      · subst restored
        refine Script.Follows.bind (follows_restored (uses_restoreStopFirst (by simp)))
          fun _ _ _ failed => ?_
        simp at failed

/-- The cutover creates the candidate's container at the replacement, and is still at it
when it succeeds. -/
theorem follows_cutOver
    {targets : List RouteTarget}
    {tcpTargets : List TcpRouteTarget} :
    Script.Follows (exchange records previousName (containerName ctx deploymentId)) .replacing
      (cutOver ctx clock deploymentId address previous targets tcpTargets)
      fun outcome stage => outcome = .ok () → stage = .replacing := by
  have commits (ports : List (BitVec 16)) (state : DeploymentState) (health : HealthState) :
      Script.Follows (exchange records previousName (containerName ctx deploymentId))
        .replacing (commitCatalog ctx ctx.replicaId deploymentId address ports state health)
        fun _ stage => stage = .replacing := by
    rw [commitCatalog_eq_ask]
    exact .ask trivial fun _ => rfl
  refine (commits _ _ _).andThen (fun _ _ _ => by simp) fun _ _ staged => ?_
  subst staged
  refine (follows_guarded (by exact .ask rfl fun _ => rfl)).andThen (fun _ _ _ => by simp)
    fun _ _ created => ?_
  rw [created rfl]
  refine (follows_guarded (by exact .ask trivial fun _ => rfl)).andThen (fun _ _ _ => by simp)
    fun _ _ healthy => ?_
  rw [healthy rfl]
  refine (commits _ _ _).andThen (fun _ _ _ => by simp) fun _ _ active => ?_
  subst active
  split
  · exact fun _ => rfl
  · refine follows_guarded (follows_replacing (uses_activateRoutes ?_ ?_))
    · simp [Quiet]
    · simp [Quiet]

/-- After the cutover a run starts no container. -/
theorem quiet_concludeDeployment :
    (concludeDeployment ctx clock deploymentId address previous).Uses Quiet := by
  have quiet : ∀ request, Plain request → Idle request → Quiet request := by
    intro request _ idle
    cases request <;> first | exact idle | trivial
  refine Script.Uses.andThen ?_ fun _ => Script.Uses.bind ?_ fun _ => trivial
  · cases previous with
    | none => trivial
    | some previous =>
        obtain ⟨rest, shape, uses⟩ := uses_retirePrevious_rest ctx clock previous Quiet quiet
          trivial trivial fun _ _ _ => trivial
        rw [retire, shape, commitCatalog_eq_ask]
        exact Script.Uses.andThen ⟨trivial, fun _ => trivial⟩ uses
  · rw [sweepStuckDrainingRecords, catalog_eq_ask]
    refine Script.Uses.bind ⟨trivial, fun _ => trivial⟩ fun listing => ?_
    cases listing with
    | error error => trivial
    | ok records => exact .forEach fun _ _ => uses_sweepRecord quiet trivial fun _ _ _ => trivial

/-- A run that was misled may do anything. -/
theorem follows_misled
    {α : Type}
    (script : Remote α) :
    Script.Follows (exchange records previousName candidateName) .misled script
      fun _ _ => True :=
  (Script.Follows.of_uses (script.uses_of_forall fun _ => trivial)
    (by rintro _ _ rfl _; trivial) (by rintro _ _ _ rfl _; rfl) rfl).mono fun _ _ _ => trivial

/-- Listing the catalog tells a run of the host's records, or misleads it. -/
theorem follows_catalog {candidateName : String} :
    Script.Follows (exchange records previousName candidateName) .listing catalog
      fun outcome stage => ∀ listed, outcome = .ok listed →
        listed = records ∧ stage = .serving ∨ stage = .misled := by
  rw [catalog_eq_ask]
  refine .ask rfl fun reply listed decoded => ?_
  simp only [exchange, decoded]
  split
  · exact Or.inl ⟨‹_›, rfl⟩
  · exact Or.inr rfl

/-- A confirmed stop of the previous container begins the replacement. -/
theorem follows_stopPrevious
    (stopFirst : ctx.service.stopFirst = true) :
    Script.Follows (exchange records (containerName ctx replaced.deploymentId) candidateName)
      .serving (stopPrevious ctx (some replaced))
      fun outcome stage => outcome = .ok () → stage = .replacing := by
  unfold stopPrevious
  rw [stopFirst]
  refine .ask trivial fun reply stopped => ?_
  cases reply with
  | error error => simp at stopped
  | ok response => exact if_pos rfl

/-- From the confirmed stop on, a run keeps to the replacement. -/
theorem follows_afterStop :
    Script.Follows (exchange records previousName (containerName ctx deploymentId)) .replacing
      ((command (.ensureImage ctx.image)).andThen fun _ =>
        (command .prepareMounts).andThen fun _ =>
        (stageEnvFile ctx).andThen fun _ =>
        match planRoutes ctx with
        | .error message => .done (.error (.failed message))
        | .ok (targets, tcpTargets) =>
            (cutOver ctx clock deploymentId address previous targets tcpTargets).andThen fun _ =>
              concludeDeployment ctx clock deploymentId address previous)
      fun _ _ => True := by
  have prepares {script : Remote (Except DeployError Unit)}
      (uses : script.Uses fun request =>
        Quiet request ∧ request ≠ .removeIfPresent (containerName ctx deploymentId)) :
      Script.Follows (exchange records previousName (containerName ctx deploymentId))
        .replacing script fun _ stage => stage = .replacing :=
    follows_replacing uses
  refine (prepares (by exact uses_command ⟨trivial, by simp⟩)).andThen (fun _ _ _ => trivial)
    fun _ _ pulled => ?_
  subst pulled
  refine (prepares (by exact uses_command ⟨trivial, by simp⟩)).andThen (fun _ _ _ => trivial)
    fun _ _ mounted => ?_
  subst mounted
  refine (prepares ?_).andThen (fun _ _ _ => trivial) fun _ _ staged => ?_
  · unfold stageEnvFile
    split
    · trivial
    · exact uses_command ⟨trivial, by simp⟩
  subst staged
  split
  · trivial
  · refine follows_cutOver.andThen (fun _ _ _ => trivial) fun _ _ cut => ?_
    rw [cut rfl]
    exact (follows_quiet quiet_concludeDeployment (Or.inl rfl)).mono fun _ _ _ => trivial

/-- A stop-first run keeps to the stages, whatever its calls are told. -/
theorem follows_deployDynamicEndpoint
    (digest : String → String)
    {replaced : CatalogRecord}
    (stopFirst : ctx.service.stopFirst = true)
    (found : previousOf ctx.replicaId records = some replaced) :
    Script.Follows (exchange records (containerName ctx replaced.deploymentId)
        (containerName ctx (deploymentIdOf digest ctx clock))) .listing
      (deployDynamicEndpoint ctx clock digest) fun _ _ => True := by
  refine follows_catalog.andThen (fun _ _ _ => trivial) fun listed stage told => ?_
  rcases told listed rfl with ⟨rfl, rfl⟩ | rfl
  · have leasing : Script.Follows (exchange listed (containerName ctx replaced.deploymentId)
        (containerName ctx (deploymentIdOf digest ctx clock))) .serving
        (leaseAddress ctx clock (deploymentIdOf digest ctx clock))
        fun _ stage => stage = .serving := by
      rw [leaseAddress_eq_ask]
      exact .ask trivial fun _ => rfl
    simp only [found]
    refine leasing.andThen (fun _ _ _ => trivial) fun address _ leased => ?_
    subst leased
    refine (follows_stopPrevious stopFirst).andThen (fun _ _ _ => trivial) fun _ _ stopped => ?_
    rw [stopped rfl]
    exact follows_afterStop
  · exact follows_misled _

end Script

section Exclusion

variable {hash : ContentHash} {project nodeId previousName candidateName : String}
variable {records : List CatalogRecord} {shared next : SharedHost}

/-- A deployment that keeps to the stages, on a host of which its stage tells the
truth. -/
structure SharedHost.OnTrack
    (records : List CatalogRecord)
    (previousName candidateName : String)
    (shared : SharedHost) : Prop where
  follows : Script.Follows (exchange records previousName candidateName)
    (stageOf records previousName candidateName shared.calls) shared.remaining fun _ _ => True
  holds : (stageOf records previousName candidateName shared.calls).Holds records previousName
    candidateName shared.host

theorem stageOf_concat (calls : List (Call Request Reply)) (call : Call Request Reply) :
    stageOf records previousName candidateName (calls ++ [call]) =
      (exchange records previousName candidateName).after
        (stageOf records previousName candidateName calls) call.request call.reply := by
  simp [stageOf]

/-- A call of the deployment keeps it on track. -/
theorem SharedHost.OnTrack.makeCall
    (onTrack : shared.OnTrack records previousName candidateName)
    (distinct : candidateName ≠ previousName)
    (undisturbed : Undisturbed records previousName candidateName shared (.call fate))
    (made : shared.makeCall hash fate = some next) :
    next.OnTrack records previousName candidateName := by
  unfold SharedHost.makeCall at made
  split at made
  · simp at made
  · rename_i request rest remaining
    obtain ⟨follows, holds⟩ := onTrack
    rw [remaining] at follows
    have reached : request = .removeIfPresent candidateName →
        ∀ reason, fate ≠ .unreached reason := by
      rintro rfl reason rfl
      exact undisturbed rest remaining
    have kept := holds.settle hash distinct follows.1 reached
    have requested := (hostWorld hash).settle_request shared.host request fate
    rcases settled : (hostWorld hash).settle shared.host request fate with ⟨call, host⟩
    rw [settled] at made kept requested
    obtain rfl := Option.some.inj made
    constructor
    · rw [stageOf_concat, requested]
      exact follows.2 _
    · rw [stageOf_concat, requested]
      exact kept

/-- A start by a tick keeps the deployment on track. -/
theorem SharedHost.OnTrack.startNext
    (hash : ContentHash)
    (onTrack : shared.OnTrack records previousName candidateName)
    (undisturbed : Undisturbed records previousName candidateName shared .start)
    (started : shared.startNext = some next) :
    next.OnTrack records previousName candidateName := by
  unfold SharedHost.startNext at started
  split at started
  · rename_i name names tick
    obtain rfl := Option.some.inj started
    refine ⟨onTrack.follows, onTrack.holds.setRunning hash fun replacing => ?_⟩
    rintro rfl
    exact undisturbed replacing names tick
  · simp at started

/-- Every undisturbed event keeps the deployment on track. -/
theorem SharedHost.OnTrack.advance
    {event : SharedEvent}
    (onTrack : shared.OnTrack records previousName candidateName)
    (distinct : candidateName ≠ previousName)
    (undisturbed : Undisturbed records previousName candidateName shared event)
    (advanced : shared.advance hash project nodeId event = some next) :
    next.OnTrack records previousName candidateName := by
  cases event with
  | call fate => exact onTrack.makeCall distinct undisturbed advanced
  | start => exact onTrack.startNext hash undisturbed advanced
  | finish =>
      obtain rfl := Option.some.inj advanced
      exact ⟨onTrack.follows, onTrack.holds⟩
  | discover observations =>
      simp only [SharedHost.advance] at advanced
      split at advanced
      · split at advanced
        · obtain rfl := Option.some.inj advanced
          exact ⟨onTrack.follows, onTrack.holds⟩
        · simp at advanced
      · simp at advanced
  | read startupCandidates =>
      simp only [SharedHost.advance] at advanced
      split at advanced
      · obtain rfl := Option.some.inj advanced
        exact ⟨onTrack.follows, onTrack.holds⟩
      · simp at advanced

/-- A stop-first run beside any number of ticks never has the previous container and the
candidate's running together, provided that no tick starts the previous container while
the run replaces it and that the removal of the candidate reaches the host. -/
theorem stopFirst_exclusive
    (hash : ContentHash)
    (digest : String → String)
    (ctx : EndpointDeploymentContext)
    (clock : Clock)
    (nodeId : String)
    (host : Host)
    (tick : Tick)
    (previous : CatalogRecord)
    (shared : SharedHost)
    (stopFirst : ctx.service.stopFirst = true)
    (found : previousOf ctx.replicaId host.api.store.latestCatalog = some previous)
    (distinct : containerName ctx (deploymentIdOf digest ctx clock) ≠
      containerName ctx previous.deploymentId)
    (absent : host.containers[containerName ctx (deploymentIdOf digest ctx clock)]? = none)
    (reaches : (sharedMachine hash ctx.project nodeId).Reaches
      (Undisturbed host.api.store.latestCatalog (containerName ctx previous.deploymentId)
        (containerName ctx (deploymentIdOf digest ctx clock)))
      (SharedHost.launch digest ctx clock host tick) shared) :
    ¬(Running shared.host.containers (containerName ctx previous.deploymentId) ∧
      Running shared.host.containers
        (containerName ctx (deploymentIdOf digest ctx clock))) := by
  have onTrack : shared.OnTrack host.api.store.latestCatalog
      (containerName ctx previous.deploymentId)
      (containerName ctx (deploymentIdOf digest ctx clock)) := by
    refine reaches.invariant ⟨?_, ?_⟩ fun _ _ _ onTrack undisturbed advanced => ?_
    · exact follows_deployDynamicEndpoint digest stopFirst found
    · exact ⟨rfl, absent⟩
    · exact onTrack.advance distinct undisturbed advanced
  exact onTrack.holds.exclusive

/-- The sample host after its first deployment. -/
def sampleServing : Host :=
  ((sampleAttempt 1 10).execute sampleContentHash sampleDigest sampleHost).state

/-- A second, stop-first deployment on the sample host, while the reconciler is idle. -/
def sampleLaunch : SharedHost :=
  .launch sampleDigest (sampleContext true) (sampleClock 2) sampleServing .idle

/-- Let the deployment make some calls that are answered. -/
def sampleCalls (answers : ℕ) : List SharedEvent := List.replicate answers (.call answered)

/-- What a tick observes of the first container. -/
def sampleObserved (running : Bool) : Observation :=
  observe "p-web-d1" ⟨"sha256:web", (buildDynamicRun (sampleContext true)
    (sampleDeploymentId 1) (Ipv4Addr.ofOctets 10 211 1 4)).labels, running⟩

/-- No tick starts the first container while it is replaced, and every call reaches the
host. -/
def sampleQuietTick (shared : SharedHost) : SharedEvent → Bool
  | .start => stageOf sampleServing.api.store.latestCatalog "p-web-d1" "p-web-d2" shared.calls ≠
      .replacing
  | .call (.unreached _) => false
  | _ => true

/-- A tick that observes the first container while it still runs does not disturb the
replacement. -/
theorem stopFirst_exclusive_sampleLaunch :
    ∃ shared, (sharedMachine sampleContentHash "p" "a").Reaches
        (Undisturbed sampleServing.api.store.latestCatalog "p-web-d1" "p-web-d2") sampleLaunch
        shared ∧
      Running shared.host.containers "p-web-d2" ∧
      ¬(Running shared.host.containers "p-web-d1" ∧
        Running shared.host.containers "p-web-d2") := by
  have runs : (((sharedMachine sampleContentHash "p" "a").checked sampleQuietTick).run sampleLaunch
      (.discover [sampleObserved true] :: sampleCalls 3 ++ .read [] :: sampleCalls 5)).any
        (fun shared => decide (Running shared.host.containers "p-web-d2")) = true := by decide +kernel
  obtain ⟨shared, ran, running⟩ := (Option.any_eq_true _ _).mp runs
  have reaches := Machine.reaches_of_checked ran fun state event passed =>
    (show Undisturbed sampleServing.api.store.latestCatalog "p-web-d1" "p-web-d2" state event by
      cases event with
      | start => exact fun replacing => absurd replacing (of_decide_eq_true passed)
      | call fate =>
          cases fate with
          | unreached reason => simp [sampleQuietTick] at passed
          | _ => trivial
      | _ => trivial)
  refine ⟨shared, reaches, of_decide_eq_true running, ?_⟩
  exact stopFirst_exclusive sampleContentHash sampleDigest (sampleContext true) (sampleClock 2)
    "a" sampleServing .idle (sampleCommitted 1 2 .active .healthy) shared rfl (by decide +kernel)
    (by decide +kernel) (by decide +kernel) reaches

/-- A tick between the stop and the cutover finds the previous deployment active and
starts its container again; then the candidate is created beside it. -/
theorem tick_restarts_stopped_container :
    ∃ shared, (sharedMachine sampleContentHash "p" "a").run sampleLaunch
        (sampleCalls 3 ++ .discover [sampleObserved false] :: .read [] :: .start ::
          sampleCalls 5) = some shared ∧
      Running shared.host.containers "p-web-d1" ∧
      Running shared.host.containers "p-web-d2" := by
  have runs : ((sharedMachine sampleContentHash "p" "a").run sampleLaunch
      (sampleCalls 3 ++ .discover [sampleObserved false] :: .read [] :: .start ::
        sampleCalls 5)).any (fun shared =>
          decide (Running shared.host.containers "p-web-d1") &&
          decide (Running shared.host.containers "p-web-d2")) = true := by decide +kernel
  obtain ⟨shared, ran, running⟩ := (Option.any_eq_true _ _).mp runs
  rw [Bool.and_eq_true, decide_eq_true_iff, decide_eq_true_iff] at running
  exact ⟨shared, ran, running⟩

end Exclusion

end Cli
end Jiji
