import Jiji.Agent.Commits
import Jiji.Cli.DeployTransaction

/-!
# The calls of a deployment

What the single calls of a deployment do to a host, whatever their fate, and which
parts of the script fail exactly when one of their calls does.
-/

namespace Jiji
namespace Cli

open Network Agent Control Replication

/-- A reply that reports an error. -/
def Failing (reply : Reply) : Prop := ∃ error, reply = .error error

section Decoding

variable (ctx : EndpointDeploymentContext) (clock : Clock)

/-- What the operator reads from the reply to a commit. -/
def decodeCommit : Reply → Except DeployError CatalogRecord
  | .ok (.agent (.catalogCommitted record)) => .ok record
  | .ok (.agent response) => .error (.unexpected response)
  | .ok _ => .error (.failed "Agent returned no response")
  | .error error => .error error

theorem ok_of_decodeCommit
    (decoded : decodeCommit reply = .ok record) :
    reply = .ok (.agent (.catalogCommitted record)) := by
  unfold decodeCommit at decoded
  split at decoded <;> simp_all

/-- The request that commits one state of a deployment. -/
def commitRequest
    (replicaId deploymentId : String)
    (address : Ipv4Addr)
    (ports : List (BitVec 16))
    (state : DeploymentState)
    (health : HealthState) : Request :=
  .agent (some (catalogKey deploymentId state))
    (.catalogCommit ⟨ctx.serviceName, replicaId, deploymentId, address.display, ports,
      ctx.image, state, health⟩)

theorem commitCatalog_eq_ask
    (replicaId deploymentId : String)
    (address : Ipv4Addr)
    (ports : List (BitVec 16))
    (state : DeploymentState)
    (health : HealthState) :
    commitCatalog ctx replicaId deploymentId address ports state health =
      Script.ask (commitRequest ctx replicaId deploymentId address ports state health)
        decodeCommit := by
  refine congrArg (Script.call _) (funext fun reply => ?_)
  cases reply with
  | error error => rfl
  | ok response =>
      cases response with
      | agent response => cases response <;> rfl
      | silent | imageId | names => rfl

/-- What the operator reads from the reply to a listing of the catalog. -/
def decodeCatalog : Reply → Except DeployError (List CatalogRecord)
  | .ok (.agent (.catalogList records)) => .ok records
  | .ok (.agent response) => .error (.unexpected response)
  | .ok _ => .error (.failed "Agent returned no response")
  | .error error => .error error

theorem ok_of_decodeCatalog
    (decoded : decodeCatalog reply = .ok records) :
    reply = .ok (.agent (.catalogList records)) := by
  unfold decodeCatalog at decoded
  split at decoded <;> simp_all

theorem catalog_eq_ask : catalog = Script.ask (.agent none .catalogList) decodeCatalog := by
  refine congrArg (Script.call _) (funext fun reply => ?_)
  cases reply with
  | error error => rfl
  | ok response =>
      cases response with
      | agent response => cases response <;> rfl
      | silent | imageId | names => rfl

/-- What the operator reads from the reply to a request for an address. -/
def decodeLease : Reply → Except DeployError Ipv4Addr
  | .ok (.agent (.addressLease _ _ address _)) =>
      match Ipv4Addr.parse address.toList with
      | some address => .ok address
      | none => .error (.failed "invalid IPv4 address syntax")
  | .ok (.agent response) => .error (.unexpected response)
  | .ok _ => .error (.failed "Agent returned no response")
  | .error error => .error error

/-- The request that leases an address for a deployment. -/
def leaseRequest (deploymentId : String) : Request :=
  .agent (some (leaseKey deploymentId))
    (.allocateAddress deploymentId ctx.replicaId ctx.server.containerSubnet.display
      [ctx.server.bridgeGateway.display, ctx.server.dnsAddress.display,
        ctx.server.proxyAddress.display] clock.timestamp)

theorem leaseAddress_eq_ask (deploymentId : String) :
    leaseAddress ctx clock deploymentId =
      Script.ask (leaseRequest ctx clock deploymentId) decodeLease := by
  refine congrArg (Script.call _) (funext fun reply => ?_)
  cases reply with
  | error error => rfl
  | ok response =>
      cases response with
      | silent | imageId | names => rfl
      | agent response =>
          cases response with
          | addressLease deployment replica address state =>
              change (match Ipv4Addr.parse address.toList with
                | some address => _
                | none => _) = Script.done (match Ipv4Addr.parse address.toList with
                | some address => _
                | none => _)
              cases Ipv4Addr.parse address.toList <;> rfl
          | _ => rfl

end Decoding

section Strictness

variable {world : World Request Reply Conditions DeployError Host}

theorem strict_command (request : Request) :
    Script.Strict world Failing (command request) := by
  refine .ask ?_
  rintro _ ⟨error, rfl⟩
  exact ⟨error, rfl⟩

theorem blames_command (request : Request) :
    Script.Blames world Failing (command request) := by
  refine .ask fun reply error decoded => ?_
  cases reply with
  | error reason => exact ⟨reason, rfl⟩
  | ok response => simp at decoded

theorem strict_catalog : Script.Strict world Failing catalog := by
  rw [catalog_eq_ask]
  refine .ask ?_
  rintro _ ⟨error, rfl⟩
  exact ⟨error, rfl⟩

theorem strict_commitCatalog
    (ctx : EndpointDeploymentContext)
    (replicaId deploymentId : String)
    (address : Ipv4Addr)
    (ports : List (BitVec 16))
    (state : DeploymentState)
    (health : HealthState) :
    Script.Strict world Failing
      (commitCatalog ctx replicaId deploymentId address ports state health) := by
  rw [commitCatalog_eq_ask]
  refine .ask ?_
  rintro _ ⟨error, rfl⟩
  exact ⟨error, rfl⟩

theorem strict_leaseAddress
    (ctx : EndpointDeploymentContext)
    (clock : Clock)
    (deploymentId : String) :
    Script.Strict world Failing (leaseAddress ctx clock deploymentId) := by
  rw [leaseAddress_eq_ask]
  refine .ask ?_
  rintro _ ⟨error, rfl⟩
  exact ⟨error, rfl⟩

theorem strict_activateRoutes
    (targets : List RouteTarget)
    (tcpTargets : List TcpRouteTarget)
    (address : Ipv4Addr) :
    Script.Strict world Failing ((activateProxyRoutes targets address).andThen fun _ =>
      activateTcpProxyRoutes tcpTargets address) :=
  (Script.Strict.tryEach (fun _ => (strict_command _).andThen fun _ => strict_command _)
    targets).andThen fun _ =>
      .tryEach (fun _ => (strict_command _).andThen fun _ => strict_command _) tcpTargets

theorem blames_activateRoutes
    (targets : List RouteTarget)
    (tcpTargets : List TcpRouteTarget)
    (address : Ipv4Addr) :
    Script.Blames world Failing ((activateProxyRoutes targets address).andThen fun _ =>
      activateTcpProxyRoutes tcpTargets address) :=
  (Script.Blames.tryEach (fun _ => (blames_command _).andThen fun _ => blames_command _)
    targets).andThen fun _ =>
      .tryEach (fun _ => (blames_command _).andThen fun _ => blames_command _) tcpTargets

end Strictness

section Uses

theorem uses_command {allowed : Request → Prop} {request : Request} (fine : allowed request) :
    (command request).Uses allowed :=
  ⟨fine, fun _ => trivial⟩

theorem uses_catalog {allowed : Request → Prop} (fine : allowed (.agent none .catalogList)) :
    catalog.Uses allowed := by
  rw [catalog_eq_ask]
  exact ⟨fine, fun _ => trivial⟩

/-- The calls that activate routes are any that the commands for single routes are. -/
theorem uses_activateRoutes
    (routes : ∀ target, allowed (.deployRoute target) ∧
      allowed (.verifyRouteAddress target address))
    (tcpRoutes : ∀ target, allowed (.deployTcpRoute target) ∧
      allowed (.verifyTcpRouteAddress target address)) :
    ((activateProxyRoutes targets address).andThen fun _ =>
      activateTcpProxyRoutes tcpTargets address).Uses allowed := by
  refine (Script.Uses.tryEach fun target _ => ?_).andThen fun _ =>
    Script.Uses.tryEach fun target _ => ?_
  · exact Script.Uses.andThen ⟨(routes target).1, fun _ => trivial⟩
      fun _ => ⟨(routes target).2, fun _ => trivial⟩
  · exact Script.Uses.andThen ⟨(tcpRoutes target).1, fun _ => trivial⟩
      fun _ => ⟨(tcpRoutes target).2, fun _ => trivial⟩

end Uses

section Effects

variable {hash : ContentHash} {host next : Host} {conditions : Conditions} {reply : Reply}
variable {request : Request} {response : Response}
variable {fate : Fate Conditions DeployError}

/-- A call that succeeds was performed. -/
theorem performed_of_ok
    (replied : ((hostWorld hash).settle host request fate).1.reply = .ok response) :
    ((hostWorld hash).settle host request fate).1.answer = some (.ok response) ∧
      ∃ conditions, Host.perform hash conditions host request =
        (.ok response, ((hostWorld hash).settle host request fate).2) :=
  (hostWorld hash).performed_of_reply replied (by simp [hostWorld])

/-- A commit is answered from the cache, refused, or written to the store. -/
theorem perform_catalogCommit_cases
    (performed : Host.perform hash conditions host (.agent (some key)
      (.catalogCommit commit)) = (reply, next)) :
    (∃ cached, host.api.responses[key]? = some cached ∧ reply = replyOf cached ∧
        next = host) ∨
      (host.api.responses[key]? = none ∧ ∃ error, reply = .error (.rejected error) ∧
        next = { host with api := { host.api with
          responses := host.api.responses.insert key (.error error) } }) ∨
      (host.api.responses[key]? = none ∧ ∃ identity record store,
        host.api.catalogIdentity = some identity ∧
        host.api.store.catalogCommit hash identity conditions.usedBytes commit =
          .ok (record, store) ∧
        reply = .ok (.agent (.catalogCommitted record)) ∧
        next = { host with api := { host.api with
          store := store
          responses := host.api.responses.insert key (.ok (.catalogCommitted record)) } }) := by
  rcases served : host.api.handleIdempotent hash conditions.usedBytes (some key)
    (.catalogCommit commit) with ⟨result, api⟩
  simp only [Host.perform, Host.askAgent, served] at performed
  obtain ⟨rfl, rfl⟩ := Prod.mk.inj performed
  rcases AgentApi.handleIdempotent_cases served with
    ⟨cached, rfl⟩ | ⟨absent, after, handled, rfl⟩
  · exact Or.inl ⟨_, cached, rfl, rfl⟩
  · rcases AgentApi.handle_catalogCommit_cases handled with
      ⟨error, rfl, rfl⟩ | ⟨identity, record, store, known, committed, rfl, rfl⟩
    · exact Or.inr (Or.inl ⟨absent, error, rfl, rfl⟩)
    · exact Or.inr (Or.inr ⟨absent, identity, record, store, known, committed, rfl, rfl⟩)

/-- A request for an address, made for the first time and for a deployment without a
lease, gives it an active lease or fails and leaves it without one. -/
theorem perform_allocateAddress_cases
    (new : host.api.responses[key]? = none)
    (free : host.api.leases.addressLease deploymentId = none)
    (performed : Host.perform hash conditions host (.agent (some key)
      (.allocateAddress deploymentId replicaId subnet reserved timestamp)) = (reply, next)) :
    (∃ result leases, next = { host with api := { host.api with
        leases := leases
        responses := host.api.responses.insert key result } }) ∧
      ((∃ response, reply = .ok response ∧ next.api.leases.Leased deploymentId) ∨
        ∃ error, reply = .error error ∧
          next.api.leases.addressLease deploymentId = none) := by
  rcases served : host.api.handleIdempotent hash conditions.usedBytes (some key)
    (.allocateAddress deploymentId replicaId subnet reserved timestamp) with ⟨result, api⟩
  simp only [Host.perform, Host.askAgent, served] at performed
  obtain ⟨rfl, rfl⟩ := Prod.mk.inj performed
  rcases AgentApi.handleIdempotent_cases served with ⟨cached, _⟩ | ⟨_, after, handled, rfl⟩
  · simp [new] at cached
  · obtain ⟨leases, allocated, rfl⟩ := AgentApi.handle_allocateAddress handled
    refine ⟨⟨result, leases, rfl⟩, ?_⟩
    rcases LeaseTable.handleAllocate_of_free free allocated with
      ⟨_, _, _, _, rfl, leased⟩ | ⟨error, rfl, still⟩
    · exact Or.inl ⟨_, rfl, leased⟩
    · exact Or.inr ⟨_, rfl, still⟩

/-- A release that is made for the first time and succeeds ends the lease. -/
theorem perform_releaseAddress_ok
    (new : host.api.responses[key]? = none)
    (performed : Host.perform hash conditions host (.agent (some key)
      (.releaseAddress deploymentId timestamp)) = (.ok response, next)) :
    next.containers = host.containers ∧ next.api.store = host.api.store ∧
      ¬next.api.leases.Leased deploymentId := by
  rcases served : host.api.handleIdempotent hash conditions.usedBytes (some key)
    (.releaseAddress deploymentId timestamp) with ⟨result, api⟩
  simp only [Host.perform, Host.askAgent, served] at performed
  obtain ⟨replied, rfl⟩ := Prod.mk.inj performed
  rcases AgentApi.handleIdempotent_cases served with ⟨cached, _⟩ | ⟨_, after, handled, rfl⟩
  · simp [new] at cached
  · obtain ⟨leases, released, rfl⟩ := AgentApi.handle_releaseAddress handled
    cases result with
    | error error => simp [replyOf] at replied
    | ok body => exact ⟨rfl, rfl, LeaseTable.not_leased_of_handleRelease released⟩

/-- Starting or stopping a container that exists changes whether it runs. -/
theorem setRunning_ok
    (performed : host.setRunning name running = (.ok response, next)) :
    ∃ container, host.containers[name]? = some container ∧ next = { host with
      containers := host.containers.insert name { container with running := running } } := by
  unfold Host.setRunning at performed
  split at performed
  · simp at performed
  · rename_i container found
    obtain ⟨_, rfl⟩ := Prod.mk.inj performed
    exact ⟨container, found, rfl⟩

/-- Starting or stopping a container touches no other container and not the agent. -/
theorem setRunning_frame
    (host : Host)
    (name : String)
    (running : Bool) :
    (host.setRunning name running).2.api = host.api ∧
      ∀ other, other ≠ name →
        (host.setRunning name running).2.containers[other]? = host.containers[other]? := by
  unfold Host.setRunning
  split
  · exact ⟨rfl, fun _ _ => rfl⟩
  · refine ⟨rfl, fun other different => ?_⟩
    simp [Std.ExtTreeMap.getElem?_insert, different.symm]

/-- Creating a container touches no other container and not the agent. -/
theorem create_frame
    (host : Host)
    (conditions : Conditions)
    (run : NetworkedContainerRun) :
    (host.create conditions run).2.api = host.api ∧
      ∀ other, other ≠ run.name →
        (host.create conditions run).2.containers[other]? = host.containers[other]? := by
  unfold Host.create
  split
  · exact ⟨rfl, fun _ _ => rfl⟩
  · refine ⟨rfl, fun other different => ?_⟩
    simp [Std.ExtTreeMap.getElem?_insert, different.symm]

end Effects

end Cli
end Jiji
