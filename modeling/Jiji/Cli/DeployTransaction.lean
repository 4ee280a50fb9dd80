import Jiji.Agent.Api
import Jiji.Agent.LocalReconcile
import Jiji.Cli.ProxyRoutes
import Jiji.Control.Script

/-!
# The deployment transaction

Deploying a replica is a sequence of remote calls to one host: to its agent, its
container engine and its proxy.  The script follows the source call by call.  The
host performs a call under conditions that the script does not control, such as
the size of the agent's database.

The deployment identifier is a SHA-256 digest of the project, the replica, the
time and the process; the digest is a parameter.
-/

namespace Jiji
namespace Cli

open Network Agent Control Replication

structure Service where
  stopFirst : Bool
  proxy : Option ProxyConfig
  /-- The service builds its image instead of naming one. -/
  builds : Bool

structure ServerPlan where
  name : String
  containerSubnet : Ipv4Cidr
  bridgeGateway : Ipv4Addr
  dnsAddress : Ipv4Addr
  proxyAddress : Ipv4Addr

structure ResolvedEnvironment where
  values : Std.ExtTreeMap String String
  controlKeys : List String

structure EndpointDeploymentContext where
  project : String
  server : ServerPlan
  serviceName : String
  replicaId : String
  service : Service
  image : String
  resolvedEnv : ResolvedEnvironment
  skipProxy : Bool

/-- What a run reads from its clock and its process: the time in nanoseconds and the
process that the deployment identifier is made from, and the times of its requests. -/
structure Clock where
  nonce : ℕ
  processId : ℕ
  timestamp : ℕ
  releasedAt : ℕ
  sweptAt : String → ℕ

inductive DeployError
  | failed (message : String)
  | rejected (error : ApiError)
  | unexpected (response : ResponseBody)
  deriving DecidableEq

/-- A container to be created on the bridge of its host. -/
structure NetworkedContainerRun where
  name : String
  image : String
  address : Ipv4Addr
  labels : Labels
  deriving DecidableEq

/-- The calls to a host. -/
inductive Request
  | agent (key : Option String) (body : RequestBody)
  | stop (container : String)
  | start (container : String)
  | removeIfPresent (container : String)
  | ensureImage (image : String)
  | prepareMounts
  | stageEnvFile
  | createAndStart (run : NetworkedContainerRun)
  | waitUntilHealthy (container : String)
  | deployRoute (target : RouteTarget)
  | verifyRouteAddress (target : RouteTarget) (address : Ipv4Addr)
  | deployTcpRoute (target : TcpRouteTarget)
  | verifyTcpRouteAddress (target : TcpRouteTarget) (address : Ipv4Addr)
  | inspectImageId (container : String)
  | imageReferencedElsewhere (imageId : String)
  | removeImageIfPresent (imageId : String)
  deriving DecidableEq

/-- What a call returns when it succeeds. -/
inductive Response
  | agent (response : ResponseBody)
  | silent
  | imageId (id : Option String)
  | names (names : List String)
  deriving DecidableEq

abbrev Reply := Except DeployError Response

/-- A script of calls to a host. -/
abbrev Remote (α : Type) := Script Request Reply α

/-- The part of a text that its first bytes hold, if they end between characters. -/
def firstBytes : ℕ → List Char → Option (List Char)
  | 0, _ => some []
  | _ + 1, [] => none
  | limit + 1, character :: characters =>
      if character.utf8Size ≤ limit + 1 then
        (firstBytes (limit + 1 - character.utf8Size) characters).map (character :: ·)
      else none

/-- The name of a deployment's container. -/
def dynamicContainerName (project service deploymentId : String) : String :=
  project ++ "-" ++ service ++ "-" ++
    String.ofList ((firstBytes 12 deploymentId.toList).getD deploymentId.toList)

/-- The name of a state in an idempotency key. -/
def stateName : DeploymentState → String
  | .candidate => "Candidate"
  | .active => "Active"
  | .draining => "Draining"
  | .stopped => "Stopped"
  | .tombstoned => "Tombstoned"

def leaseKey (deploymentId : String) : String := "lease:" ++ deploymentId

def releaseKey (deploymentId : String) : String := "release:" ++ deploymentId

def catalogKey (deploymentId : String) (state : DeploymentState) : String :=
  "catalog:" ++ deploymentId ++ ":" ++ stateName state

/-- The identifier of the deployment that a run makes. -/
def deploymentIdOf
    (digest : String → String)
    (ctx : EndpointDeploymentContext)
    (clock : Clock) : String :=
  digest (ctx.project ++ "\x00" ++ ctx.replicaId ++ "\x00" ++ toString clock.nonce ++
    "\x00" ++ toString clock.processId)

/-- An engine error that only says that other containers depend on this one. -/
def isDependentContainerError : DeployError → Bool
  | .failed message => decide ("dependent container".toList <:+: message.toLower.toList)
  | _ => false

section Calls

/-- Make a call of which only the success matters. -/
def command (request : Request) : Remote (Except DeployError Unit) :=
  Script.ask request fun
    | .ok _ => .ok ()
    | .error error => .error error

/-- Send a request to the agent. -/
def agentCall (key : Option String) (body : RequestBody) :
    Remote (Except DeployError ResponseBody) :=
  Script.ask (.agent key body) fun
    | .ok (.agent response) => .ok response
    | .ok _ => .error (.failed "Agent returned no response")
    | .error error => .error error

/-- The records of the agent's catalog. -/
def catalog : Remote (Except DeployError (List CatalogRecord)) :=
  (agentCall none .catalogList).andThen fun
    | .catalogList records => .done (.ok records)
    | response => .done (.error (.unexpected response))

variable (ctx : EndpointDeploymentContext) (clock : Clock)

/-- The name of the container of one of the service's deployments. -/
def containerName (deploymentId : String) : String :=
  dynamicContainerName ctx.project ctx.serviceName deploymentId

def renderLabels (project service server : String) : Labels :=
  [("jiji.managed", "true"), ("jiji.project", project), ("jiji.service", service),
    ("jiji.server", server), ("jiji.resource", "service")]

/-- The labels of a container that the catalog manages. -/
def renderDynamicLabels
    (project service server replicaId deploymentId : String)
    (leaseAddress : Ipv4Addr)
    (lifecycle : String)
    (ownsLease : Bool) : Labels :=
  renderLabels project service server ++
    [("jiji.catalog-managed", "true"), ("jiji.replica", replicaId),
      ("jiji.deployment", deploymentId), ("jiji.lease", leaseAddress.display),
      ("jiji.lease-owned", if ownsLease then "true" else "false"),
      ("jiji.lifecycle", lifecycle)]

/-- The container of a deployment with an address of its own. -/
def buildDynamicRun (deploymentId : String) (address : Ipv4Addr) : NetworkedContainerRun where
  name := containerName ctx deploymentId
  image := ctx.image
  address := address
  labels := renderDynamicLabels ctx.project ctx.serviceName ctx.server.name ctx.replicaId
    deploymentId address "candidate" true

/-- Commit one state of a deployment. -/
def commitCatalog
    (replicaId deploymentId : String)
    (address : Ipv4Addr)
    (ports : List (BitVec 16))
    (state : DeploymentState)
    (health : HealthState) : Remote (Except DeployError CatalogRecord) :=
  (agentCall (some (catalogKey deploymentId state))
    (.catalogCommit ⟨ctx.serviceName, replicaId, deploymentId, address.display, ports,
      ctx.image, state, health⟩)).andThen fun
    | .catalogCommitted record => .done (.ok record)
    | response => .done (.error (.unexpected response))

/-- Lease an address for the deployment. -/
def leaseAddress (deploymentId : String) : Remote (Except DeployError Ipv4Addr) :=
  (agentCall (some (leaseKey deploymentId))
    (.allocateAddress deploymentId ctx.replicaId ctx.server.containerSubnet.display
      [ctx.server.bridgeGateway.display, ctx.server.dnsAddress.display,
        ctx.server.proxyAddress.display] clock.timestamp)).andThen fun
    | .addressLease _ _ address _ =>
        match Ipv4Addr.parse address.toList with
        | some address => .done (.ok address)
        | none => .done (.error (.failed "invalid IPv4 address syntax"))
    | response => .done (.error (.unexpected response))

/-- Release the address of a deployment. -/
def releaseAddress (deploymentId : String) (timestamp : ℕ) :
    Remote (Except DeployError ResponseBody) :=
  agentCall (some (releaseKey deploymentId)) (.releaseAddress deploymentId timestamp)

/-- Stop the container of the previous deployment first, if the service asks for it. -/
def stopPrevious (previous : Option CatalogRecord) : Remote (Except DeployError Unit) :=
  match ctx.service.stopFirst, previous with
  | true, some previous => command (.stop (containerName ctx previous.deploymentId))
  | _, _ => .done (.ok ())

/-- Start the container that was stopped first again. -/
def restoreStopFirst (previous : Option CatalogRecord) : Remote Unit :=
  match ctx.service.stopFirst, previous with
  | true, some previous =>
      (command (.start (containerName ctx previous.deploymentId))).bind fun _ => .done ()
  | _, _ => .done ()

/-- Write the environment of the container to the host. -/
def stageEnvFile : Remote (Except DeployError Unit) :=
  match ctx.resolvedEnv.values.toList.find? fun (key, value) =>
      !ctx.resolvedEnv.controlKeys.contains key && value.toList.contains '\n' with
  | some (key, _) => .done (.error (.failed
      s!"Environment variable '{key}' for service '{ctx.serviceName}' contains a newline, which the container engine's --env-file format cannot represent. Remove the newline from that value and retry."))
  | none => command .stageEnvFile

/-- The routes of the service, with their certificates. -/
def planRoutes : Except String (List RouteTarget × List TcpRouteTarget) :=
  let dnsServer : SocketAddr := ⟨.v4 ctx.server.dnsAddress, 53⟩
  match targetsForService ctx.project ctx.serviceName ctx.service.proxy dnsServer with
  | .error error => .error error
  | .ok targets =>
      match resolveTlsSecrets (fun name => ctx.resolvedEnv.values[name]?) targets with
      | .error error => .error error
      | .ok targets =>
          (tcpTargetsForService ctx.project ctx.serviceName ctx.service.proxy
            dnsServer).map fun tcpTargets => (targets, tcpTargets)

/-- Apply each route and wait until the proxy sees the new address as healthy. -/
def activateProxyRoutes (targets : List RouteTarget) (address : Ipv4Addr) :
    Remote (Except DeployError Unit) :=
  Script.tryEach (fun target => (command (.deployRoute target)).andThen fun _ =>
    command (.verifyRouteAddress target address)) targets

/-- The same for raw TCP routes. -/
def activateTcpProxyRoutes (targets : List TcpRouteTarget) (address : Ipv4Addr) :
    Remote (Except DeployError Unit) :=
  Script.tryEach (fun target => (command (.deployTcpRoute target)).andThen fun _ =>
    command (.verifyTcpRouteAddress target address)) targets

end Calls

section Images

/-- Whether a retention policy is installed for a service. -/
def serviceHasRetentionSpec (serviceName : String) : Remote Bool :=
  (agentCall none .imageRetentionList).bind fun
    | .ok (.imageRetentionSpecs specs) =>
        .done (specs.any fun spec => spec.service = serviceName)
    | _ => .done false

/-- The image that removing a container would leave without a use, unless it is kept
for a rollback. -/
def captureOrphanedStaticImage
    (serviceName : String)
    (service : Option Service)
    (oldName : String) : Remote (Option String) :=
  if service.any Service.builds then .done none
  else
    (serviceHasRetentionSpec serviceName).bind fun
      | true => .done none
      | false => .call (.inspectImageId oldName) fun
          | .ok (.imageId id) => .done id
          | _ => .done none

/-- Remove an orphaned image unless another container uses it. -/
def finishOrphanedStaticImageCleanup (orphanedImageId : Option String) : Remote Unit :=
  match orphanedImageId with
  | none => .done ()
  | some imageId => .call (.imageReferencedElsewhere imageId) fun
      | .ok (.names []) => (command (.removeImageIfPresent imageId)).bind fun _ => .done ()
      | _ => .done ()

end Images

section Transaction

variable (ctx : EndpointDeploymentContext) (clock : Clock)

/-- Undo what was done for a candidate, without regard to failures. -/
def releaseCandidate (deploymentId : String) (address : Ipv4Addr) : Remote Unit :=
  (command (.removeIfPresent (containerName ctx deploymentId))).bind fun _ =>
    (commitCatalog ctx ctx.replicaId deploymentId address [] .tombstoned .unhealthy).bind
      fun _ => (releaseAddress deploymentId clock.releasedAt).bind fun _ => .done ()

/-- Undo the candidate when an action fails. -/
def guarded
    (deploymentId : String)
    (address : Ipv4Addr)
    (previous : Option CatalogRecord)
    (action : Remote (Except DeployError Unit)) : Remote (Except DeployError Unit) :=
  action.bind fun
    | .ok () => .done (.ok ())
    | .error error => (releaseCandidate ctx clock deploymentId address).bind fun _ =>
        (restoreStopFirst ctx previous).bind fun _ => .done (.error error)

/-- Finish the interrupted cleanup of one record. -/
def sweepRecord (serviceName : String) (service : Option Service) (record : CatalogRecord) :
    Remote Unit :=
  let oldName := dynamicContainerName ctx.project serviceName record.deploymentId
  (captureOrphanedStaticImage serviceName service oldName).bind fun orphanedImage =>
    (command (.removeIfPresent oldName)).bind fun
      | .error _ => .done ()
      | .ok () => (finishOrphanedStaticImageCleanup orphanedImage).bind fun _ =>
          (releaseAddress record.deploymentId (clock.sweptAt record.deploymentId)).bind
            fun _ => (agentCall (some (catalogKey record.deploymentId .tombstoned))
              (.catalogCommit ⟨record.service, record.replicaId, record.deploymentId,
                record.address.display, record.ports, record.image, .tombstoned,
                .unknown⟩)).bind fun _ => .done ()

/-- Records of a service on this server that an earlier run left draining. -/
def stuckDraining (serviceName : String) (record : CatalogRecord) : Bool :=
  record.service = serviceName && record.ownerNodeId = ctx.server.name &&
    record.state = .draining

/-- Finish the interrupted cleanups of a service, without regard to failures. -/
def sweepStuckDrainingRecords (serviceName : String) (service : Option Service) :
    Remote Unit :=
  catalog.bind fun
    | .error _ => .done ()
    | .ok records => Script.forEach (sweepRecord ctx clock serviceName service)
        (records.filter (stuckDraining ctx serviceName))

/-- The new deployment, and whether the removal of the previous container was
deferred because other containers depend on it. -/
structure Deployed where
  deploymentId : String
  address : Ipv4Addr
  deferred : Bool
  deriving DecidableEq

/-- Retire the previous deployment after the cutover. -/
def retirePrevious (previous : CatalogRecord) : Remote (Except DeployError Bool) :=
  let oldName := containerName ctx previous.deploymentId
  (commitCatalog ctx previous.replicaId previous.deploymentId previous.address
    previous.ports .draining .unknown).andThen fun _ =>
  (captureOrphanedStaticImage ctx.serviceName (some ctx.service) oldName).bind
    fun orphanedImage =>
  (command (.stop oldName)).bind fun _ =>
  (command (.removeIfPresent oldName)).bind fun
    | .error error =>
        if isDependentContainerError error then .done (.ok true) else .done (.error error)
    | .ok () => (finishOrphanedStaticImageCleanup orphanedImage).bind fun _ =>
        (releaseAddress previous.deploymentId clock.timestamp).andThen fun _ =>
          (commitCatalog ctx previous.replicaId previous.deploymentId previous.address
            previous.ports .tombstoned .unknown).andThen fun _ => .done (.ok false)

/-- Retire the previous deployment, if there is one. -/
def retire (previous : Option CatalogRecord) : Remote (Except DeployError Bool) :=
  match previous with
  | none => .done (.ok false)
  | some previous => retirePrevious ctx clock previous

/-- The end of a run after the candidate serves. -/
def concludeDeployment
    (deploymentId : String)
    (address : Ipv4Addr)
    (previous : Option CatalogRecord) : Remote (Except DeployError Deployed) :=
  (retire ctx clock previous).andThen fun deferred =>
  (sweepStuckDrainingRecords ctx clock ctx.serviceName (some ctx.service)).bind fun _ =>
    .done (.ok ⟨deploymentId, address, deferred⟩)

/-- The cutover from the previous deployment to the candidate. -/
def cutOver
    (deploymentId : String)
    (address : Ipv4Addr)
    (previous : Option CatalogRecord)
    (targets : List RouteTarget)
    (tcpTargets : List TcpRouteTarget) : Remote (Except DeployError Unit) :=
  let guard := guarded ctx clock deploymentId address previous
  let name := containerName ctx deploymentId
  let ports := targets.map RouteTarget.port ++ tcpTargets.map TcpRouteTarget.port
  (commitCatalog ctx ctx.replicaId deploymentId address ports .candidate .unknown).andThen
    fun _ =>
  (guard (command (.createAndStart (buildDynamicRun ctx deploymentId address)))).andThen
    fun _ =>
  (guard (command (.waitUntilHealthy name))).andThen fun _ =>
  (commitCatalog ctx ctx.replicaId deploymentId address ports .active .healthy).andThen
    fun _ =>
  if ctx.skipProxy then .done (.ok ())
  else guard ((activateProxyRoutes targets address).andThen fun _ =>
    activateTcpProxyRoutes tcpTargets address)

/-- The active and healthy record of the replica that a run replaces. -/
def previousOf (replicaId : String) (records : List CatalogRecord) : Option CatalogRecord :=
  records.find? fun record => record.replicaId = replicaId && decide record.Serving

/-- Deploy a replica to a host. -/
def deployDynamicEndpoint (digest : String → String) : Remote (Except DeployError Deployed) :=
  let deploymentId := deploymentIdOf digest ctx clock
  catalog.andThen fun records =>
  let previous := previousOf ctx.replicaId records
  (leaseAddress ctx clock deploymentId).andThen fun address =>
  (stopPrevious ctx previous).andThen fun _ =>
  (command (.ensureImage ctx.image)).andThen fun _ =>
  (command .prepareMounts).andThen fun _ =>
  (stageEnvFile ctx).andThen fun _ =>
  match planRoutes ctx with
  | .error message => .done (.error (.failed message))
  | .ok (targets, tcpTargets) =>
      (cutOver ctx clock deploymentId address previous targets tcpTargets).andThen fun _ =>
        concludeDeployment ctx clock deploymentId address previous

end Transaction

section World

/-- What the deployments of a project see of a host. -/
structure Host where
  api : AgentApi
  containers : Containers

/-- What a call depends on beside the state of the host: the size of the agent's
database, the image that a name stands for, and whether a new container starts. -/
structure Conditions where
  usedBytes : ℕ
  imageId : String
  starts : Bool

/-- What the operator's side makes of the agent's answer. -/
def replyOf : ApiResult → Reply
  | .error error => .error (.rejected error)
  | .ok response => .ok (.agent response)

namespace Host

variable (hash : ContentHash)

/-- Set whether an existing container runs. -/
def setRunning (host : Host) (name : String) (running : Bool) : Reply × Host :=
  match host.containers[name]? with
  | none => (.error (.failed s!"No such container: {name}"), host)
  | some container =>
      (.ok .silent, { host with
        containers := host.containers.insert name { container with running := running } })

/-- Create a container under a new name. -/
def create (host : Host) (conditions : Conditions) (run : NetworkedContainerRun) :
    Reply × Host :=
  if host.containers.contains run.name then
    (.error (.failed s!"The container name {run.name} is already in use"), host)
  else
    (if conditions.starts then .ok .silent
      else .error (.failed s!"The container {run.name} failed to start"),
      { host with
        containers := host.containers.insert run.name
          ⟨conditions.imageId, run.labels, conditions.starts⟩ })

/-- Pass a request to the agent. -/
def askAgent (host : Host) (conditions : Conditions) (key : Option String)
    (body : RequestBody) : Reply × Host :=
  let (result, api) := host.api.handleIdempotent hash conditions.usedBytes key body
  (replyOf result, { host with api := api })

/-- Perform a call.  The engine's other failures and those of the proxy are failures of
the calls themselves. -/
def perform (conditions : Conditions) (host : Host) : Request → Reply × Host
  | .agent key body => host.askAgent hash conditions key body
  | .stop name => host.setRunning name false
  | .start name => host.setRunning name true
  | .removeIfPresent name =>
      (.ok .silent, { host with containers := host.containers.erase name })
  | .createAndStart run => host.create conditions run
  | .waitUntilHealthy name =>
      if Running host.containers name then (.ok .silent, host)
      else (.error (.failed s!"Container {name} is not running"), host)
  | .inspectImageId name =>
      (.ok (.imageId (host.containers[name]?.map Container.imageId)), host)
  | .imageReferencedElsewhere imageId =>
      (.ok (.names ((host.containers.toList.filter fun (_, container) =>
        container.imageId = imageId).map Prod.fst)), host)
  | .ensureImage _ | .prepareMounts | .stageEnvFile | .deployRoute _
  | .verifyRouteAddress _ _ | .deployTcpRoute _ | .verifyTcpRouteAddress _ _
  | .removeImageIfPresent _ => (.ok .silent, host)

end Host

/-- A host that performs the calls of deployments. -/
def hostWorld (hash : ContentHash) : World Request Reply Conditions DeployError Host where
  perform := Host.perform hash
  failure := .error

end World

section Samples

/-- The identifier of the deployment that a sample run makes, in place of a digest. -/
def sampleDeploymentId (nonce : ℕ) : String := if nonce = 1 then "d1" else "d2"

/-- The digest on the texts that sample runs make their identifiers from. -/
def sampleDigest : String → String :=
  lookupId
    [("p\x00web@1\x001\x007", sampleDeploymentId 1),
      ("p\x00web@1\x002\x007", sampleDeploymentId 2)]

/-- A service without a proxy on the only server of a project. -/
def sampleContext (stopFirst : Bool) : EndpointDeploymentContext where
  project := "p"
  server :=
    ⟨"a", ⟨Ipv4Addr.ofOctets 10 211 1 0, 24, by decide, by decide⟩,
      Ipv4Addr.ofOctets 10 211 1 1, Ipv4Addr.ofOctets 10 211 1 2,
      Ipv4Addr.ofOctets 10 211 1 3⟩
  serviceName := "web"
  replicaId := "web@1"
  service := ⟨stopFirst, none, false⟩
  image := "web:1"
  resolvedEnv := ⟨∅, []⟩
  skipProxy := false

def sampleClock (nonce : ℕ) : Clock := ⟨nonce, 7, 1000, 1001, fun _ => 1002⟩

/-- A record that a sample run commits. -/
def sampleCommitted
    (nonce revision : ℕ)
    (state : DeploymentState)
    (health : HealthState) : CatalogRecord where
  projectId := "p"
  recoveryEpoch := 1
  protocolVersion := catalogProtocolVersion
  schemaVersion := catalogSchemaVersion
  service := "web"
  replicaId := "web@1"
  ownerNodeId := "a"
  ownerEpoch := 1
  revision := revision
  deploymentId := sampleDeploymentId nonce
  address := Ipv4Addr.ofOctets 10 211 1 (nonce + 3)
  ports := []
  image := "web:1"
  state := state
  health := health

/-- The content hashes of the records that sample runs commit. -/
def sampleDigests : List (CatalogRecord × String) :=
  [(sampleCommitted 1 1 .candidate .unknown,
      "d1b3308dea769ad4a380e1f9bf8d7f196ede2759e681706f580dc9574038f688"),
    (sampleCommitted 1 2 .active .healthy,
      "2f563ed3e711905d436a4d0e3ffd780f57d0f10de084f37f9b5ca89b4e47d957"),
    (sampleCommitted 1 2 .tombstoned .unhealthy,
      "333fece4409a620cbd4781ba110c1fcab78215520ceb15abe2bd275447df8d5a"),
    (sampleCommitted 1 5 .draining .unknown,
      "d9b6c3d863113b0923cf18d89a9a90fadabb87be4b3407d5f0d62f172932496e"),
    (sampleCommitted 1 6 .tombstoned .unknown,
      "25d99c2ad7a26b501056002232746917914a1f7563cce207f148be9d5abe8d5b"),
    (sampleCommitted 2 2 .candidate .unknown,
      "0b7721e7789d5fb01e67777f3d00d03e2d537f6e702846d636eab2795082f954"),
    (sampleCommitted 2 3 .active .healthy,
      "94e445c6a12330f6b52a337ad6b054a057792b1c039586694afe5fd6d295dbaf"),
    (sampleCommitted 2 3 .candidate .unknown,
      "325750858129033280bf2e783d089c71d351bd3435eb173da469f7f31a494108"),
    (sampleCommitted 2 4 .active .healthy,
      "d5db97e0a048b363fe7226da63c61237f80099549f33678eff99bf19a4cc68b7")]

/-- The content hashes of the records on the sample host. -/
def sampleContentHash : ContentHash where
  membership := lookupId
    [(sampleMember "a" "alpha" 1 1 1 .active,
        "17be4496d8f80dbf3bedc6ee322fa32bcbcbfed271df31c7ff8d51cc5208bb4d")]
  catalog := lookupId sampleDigests
  desired := lookupId []

/-- The sample records have different content hashes. -/
theorem sampleContentHash_injOn :
    Set.InjOn sampleContentHash.catalog
      { record | record ∈ sampleDigests.map Prod.fst } := by
  intro record _ other member same
  exact lookupId_unique (by decide) (by decide) member same

/-- A host that has joined the project and runs no container. -/
def sampleHost : Host where
  api :=
    { store := AgentStore.run sampleContentHash ⟨"p", 1⟩ .empty
        [.applyMembership 0 (sampleMember "a" "alpha" 1 1 1 .active)]
      leases := .empty
      responses := ∅
      retentionSpecs := []
      catalogIdentity := some ⟨"p", 1, "a"⟩ }
  containers := ∅

/-- A call that is answered. -/
def answered : Fate Conditions DeployError := .answered ⟨0, "sha256:web", true⟩

end Samples

end Cli
end Jiji
