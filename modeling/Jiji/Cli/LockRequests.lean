import Jiji.Cli.FreeLocks
import Jiji.Cli.Placement

/-!
# The locks that commands request

Deploying, restarting, rolling back, removing and scaling services each select what they
work on and compute the locks for it before they change anything.  Each command connects to
the hosts of its work, and some of its requests may be for the same lock or for a host that
it is not connected to.
-/

namespace Jiji
namespace Cli

open Std Replication Agent

section Commands

/-- What the agents tell a command: the scale that is desired for a service, and the
catalog. -/
structure ClusterView where
  scaleOverride : String → String → Option ℕ
  catalog : String → List CatalogRecord

inductive ScaleTarget
  | reset
  | unchanged
  | to (scale : ℕ)
  deriving DecidableEq

/-- The commands that change services, with their filters. -/
inductive Command
  | deploy (hosts services : List String) (skipProxy : Bool)
  | restart (hosts services : List String)
  | rollback (hosts services : List String)
  | remove (hosts services : List String)
  | scale (service : String) (target : ScaleTarget)
  deriving DecidableEq

/-- What a command is going to do. -/
inductive Work
  | rollout (replicas : List Replica)
  | removal (endpoints : List Endpoint)
  | scaling (service : String) (additions removals : List Replica)
  deriving DecidableEq

/-- What a command has computed when it acquires its locks. -/
structure Preparation where
  work : Work
  requests : List LockRequest
  sessions : List String
  deriving DecidableEq

def replicaRequest (replica : Replica) : LockRequest :=
  ⟨.logicalReplica replica.replicaId, replica.server⟩

def proxyRequest (host : String) : LockRequest := ⟨.hostGlobalProxy, host⟩

variable (digest : ReplicaDigest) (config : ProjectConfig) (view : ClusterView)

def ProjectConfig.proxied (service : String) : Bool :=
  (config.services[service]?).any ServiceSpec.proxied

/-- Connect to configured servers. -/
def connect (problem : String → String) (names : List String) :
    Except String (List String) :=
  match names.find? fun name => !config.servers.contains name with
  | some name => .error (problem name)
  | none => .ok names

def undefinedServer (name : String) : String :=
  s!"Server '{name}' referenced by a selected endpoint is not defined in configuration"

/-- The server whose agent knows the desired scales. -/
def seedServer (serviceNames : List String) : String :=
  (sortedNames (serviceNames.flatMap fun name =>
    (config.services[name]?).elim [] ServiceSpec.servers)).headD ""

def prepareDeploy (hosts services : List String) (skipProxy : Bool) :
    Except String Preparation := do
  let endpoints ← planEndpoints config
  let configured ← selectReplicaEndpoints digest config endpoints hosts services
  let serviceNames := sortedNames (configured.map Replica.service)
  let (effective, ingressHosts) ← selectEffectiveReplicaEndpoints digest config endpoints hosts
    serviceNames (view.scaleOverride (seedServer config serviceNames))
  let selected ← addCascadedDependents digest config endpoints effective
  let sessions ← connect config undefinedServer
    (sortedNames (selected.map Replica.server ++ ingressHosts))
  .ok {
    work := .rollout selected
    requests := selected.map replicaRequest ++
      if skipProxy then [] else ingressHosts.map proxyRequest
    sessions := sessions }

/-- The requests for a replica that is replaced in place. -/
def replacementRequests (replica : Replica) : List LockRequest :=
  replicaRequest replica ::
    if config.proxied replica.service then [proxyRequest replica.server] else []

/-- Restarting and rolling back select and lock in the same way. -/
def prepareReplacement (hosts services : List String) : Except String Preparation := do
  let endpoints ← planEndpoints config
  let matched ← selectTargetEndpoints config endpoints hosts services
  let selected ← addCascadedDependents digest config endpoints
    (expandReplicas digest config matched)
  let sessions ← connect config undefinedServer (sortedNames (selected.map Replica.server))
  .ok {
    work := .rollout selected
    requests := selected.flatMap (replacementRequests config)
    sessions := sessions }

/-- A record of a deployment that still stands. -/
def standing (record : CatalogRecord) : Bool :=
  record.state ≠ .stopped ∧ record.state ≠ .tombstoned

/-- The records that a removal of an endpoint works on. -/
def ownedRecords (records : List CatalogRecord) (endpoint : Endpoint) : List CatalogRecord :=
  records.filter fun record =>
    record.service = endpoint.service ∧ record.ownerNodeId = endpoint.server ∧ standing record

/-- The replicas that an endpoint owns. -/
def discover (endpoint : Endpoint) : List Replica :=
  (sortedNames ((ownedRecords (view.catalog endpoint.server) endpoint).map
    CatalogRecord.replicaId)).map fun replicaId => ⟨endpoint.service, endpoint.server, replicaId⟩

def prepareRemove (hosts services : List String) : Except String Preparation := do
  let endpoints ← planEndpoints config
  let selected ← selectTargetEndpoints config endpoints hosts services
  let sessions ← connect config undefinedServer (sortedNames (selected.map Endpoint.server))
  let proxyHosts := sortedNames <|
    (selected.filter fun endpoint => config.proxied endpoint.service).map Endpoint.server
  .ok {
    work := .removal selected
    requests := (selected.flatMap (discover view)).map replicaRequest ++
      proxyHosts.map proxyRequest
    sessions := sessions }

/-- The replicas that a service has too few and too many, compared with the catalog of its
first server. -/
def scaleChanges (name : String) (servers : List String) (current requested : ℕ)
    (records : List CatalogRecord) : List Replica × List Replica :=
  let desired := assignmentsFor digest config name servers requested
  let desiredIds := desired.map Replica.replicaId
  let activeIds := (records.filter fun record =>
    record.service = name ∧ record.state = .active ∧ record.health = .healthy).map
      CatalogRecord.replicaId
  let superfluous := (assignmentsFor digest config name servers current).filter fun replica =>
    !desiredIds.contains replica.replicaId
  (desired.filter fun replica => !activeIds.contains replica.replicaId,
    (records.filter fun record => record.service = name ∧ record.state = .active ∧
      !desiredIds.contains record.replicaId).foldl
        (fun removals record =>
          if removals.all fun replica => replica.replicaId ≠ record.replicaId then
            removals ++ [⟨name, record.ownerNodeId, record.replicaId⟩]
          else removals)
        superfluous)

/-- Why a service cannot have a scale. -/
def scaleProblem (name : String) (service : ServiceSpec) (servers requested : ℕ) :
    Option String :=
  let total := servers * requested
  if 2000 < total then
    some s!"Scale {requested} across {servers} server(s) is {total} total instances, which exceeds Jiji's supported limit of 2000"
  else if requested ≤ 1 then none
  else if service.stopFirst then
    some s!"Service '{name}' uses stop_first and must remain a singleton"
  else if service.networkMode ≠ "bridge" then
    some s!"Service '{name}' can only scale with project bridge networking"
  else if service.localState then
    some s!"Service '{name}' has local volumes/files/directories and cannot be scaled implicitly"
  else if service.exclusive then
    some s!"Service '{name}' uses exclusive host resources and cannot be scaled"
  else if service.publishesPorts then
    some s!"Service '{name}' publishes fixed host ports and cannot run more than one replica on the same host"
  else none

/-- The hosts that a scaling connects to. -/
def affectedHosts (service : ServiceSpec) (seed : String) (changed : List Replica) :
    List String :=
  let affected := changed.map Replica.server ++ if service.proxied then service.servers else []
  sortedNames (if affected = [] then [seed] else affected)

/-- The scale that a request asks for. -/
def requestedScale (service : ServiceSpec) (current : ℕ) : ScaleTarget → ℕ
  | .reset => service.scale
  | .unchanged => current
  | .to scale => scale

/-- Scale one service, given its configuration. -/
def prepareScaleOf (name : String) (service : ServiceSpec) (target : ScaleTarget) :
    Except String Preparation :=
  let eligible := sortedNames service.servers
  let seed := eligible.headD ""
  let current := (view.scaleOverride seed name).getD service.scale
  let requested := requestedScale service current target
  match scaleProblem name service eligible.length requested with
  | some problem => .error problem
  | none =>
      let (additions, removals) :=
        scaleChanges digest config name eligible current requested (view.catalog seed)
      let affected := affectedHosts service seed (additions ++ removals)
      (connect config (fun name => s!"Server '{name}' is not configured") affected).map
        fun sessions => {
          work := .scaling name additions removals
          requests := ⟨.serviceScale name, seed⟩ ::
            if service.proxied then affected.map proxyRequest else []
          sessions := sessions }

def prepareScale (filter : String) (target : ScaleTarget) : Except String Preparation :=
  match config.services.toList.filter fun (name, _) => matchesPattern name filter with
  | [(name, service)] => prepareScaleOf digest config view name service target
  | matched => .error
      s!"-S/--services must match exactly one service; '{filter}' matched {matched.length}"

/-- Compute what a command is going to do and the locks that it needs. -/
def Command.prepare (command : Command) : Except String Preparation :=
  if validateConfig config then
    match command with
    | .deploy hosts services skipProxy =>
        prepareDeploy digest config view hosts services skipProxy
    | .restart hosts services => prepareReplacement digest config hosts services
    | .rollback hosts services => prepareReplacement digest config hosts services
    | .remove hosts services => prepareRemove config view hosts services
    | .scale service target => prepareScale digest config view service target
  else .error "Configuration is invalid; fix the errors above and try again"

end Commands

section Paths

variable {project : String}

/-- Different scopes have different lock paths. -/
theorem lockPath_injective (project : String) :
    Function.Injective (LockScope.lockPath project) := by
  intro left right same
  rw [← String.toList_inj] at same
  cases left <;> cases right <;>
    simp_all [LockScope.lockPath, projectStagingDir, hostGlobalProxyLockPath,
      String.toList_append, String.toList_inj]

theorem place_injective (project : String) :
    Function.Injective (LockRequest.place project) := by
  rintro ⟨leftScope, leftHost⟩ ⟨rightScope, rightHost⟩ same
  obtain ⟨hosts, paths⟩ := Prod.ext_iff.mp same
  obtain rfl : leftHost = rightHost := hosts
  obtain rfl := lockPath_injective project paths
  rfl

end Paths

section Specifications

variable {digest : ReplicaDigest} {config : ProjectConfig} {view : ClusterView}
variable {hosts services : List String} {preparation : Preparation}

theorem eq_of_connect
    (connected : connect config problem names = .ok sessions) :
    sessions = names := by
  unfold connect at connected
  split at connected
  · cases connected
  · exact (Except.ok.inj connected).symm

/-- What a deployment has computed. -/
theorem prepareDeploy_eq_ok
    (prepared : prepareDeploy digest config view hosts services skipProxy = .ok preparation) :
    ∃ endpoints configured effective ingressHosts selected,
      planEndpoints config = .ok endpoints ∧
      selectReplicaEndpoints digest config endpoints hosts services = .ok configured ∧
      selectEffectiveReplicaEndpoints digest config endpoints hosts
        (sortedNames (configured.map Replica.service))
        (view.scaleOverride (seedServer config (sortedNames (configured.map Replica.service)))) =
          .ok (effective, ingressHosts) ∧
      addCascadedDependents digest config endpoints effective = .ok selected ∧
      preparation = ⟨.rollout selected,
        selected.map replicaRequest ++ (if skipProxy then [] else ingressHosts).map proxyRequest,
        sortedNames (selected.map Replica.server ++ ingressHosts)⟩ := by
  simp only [prepareDeploy, Fallible.bind_eq_ok_iff, Prod.exists] at prepared
  obtain ⟨endpoints, planned, configured, chosen, effective, ingressHosts, found, selected,
    cascaded, sessions, connected, same⟩ := prepared
  refine ⟨endpoints, configured, effective, ingressHosts, selected, planned, chosen, found,
    cascaded, ?_⟩
  rw [← Except.ok.inj same, eq_of_connect connected]
  cases skipProxy <;> rfl

/-- What a restart or a rollback has computed. -/
theorem prepareReplacement_eq_ok
    (prepared : prepareReplacement digest config hosts services = .ok preparation) :
    ∃ endpoints targets selected,
      planEndpoints config = .ok endpoints ∧
      selectTargetEndpoints config endpoints hosts services = .ok targets ∧
      addCascadedDependents digest config endpoints (expandReplicas digest config targets) =
        .ok selected ∧
      preparation = ⟨.rollout selected, selected.flatMap (replacementRequests config),
        sortedNames (selected.map Replica.server)⟩ := by
  simp only [prepareReplacement, Fallible.bind_eq_ok_iff] at prepared
  obtain ⟨endpoints, planned, targets, chosen, selected, cascaded, sessions, connected, same⟩ :=
    prepared
  refine ⟨endpoints, targets, selected, planned, chosen, cascaded, ?_⟩
  rw [← Except.ok.inj same, eq_of_connect connected]

/-- What a removal has computed. -/
theorem prepareRemove_eq_ok
    (prepared : prepareRemove config view hosts services = .ok preparation) :
    ∃ endpoints selected,
      planEndpoints config = .ok endpoints ∧
      selectTargetEndpoints config endpoints hosts services = .ok selected ∧
      preparation = ⟨.removal selected,
        (selected.flatMap (discover view)).map replicaRequest ++
          (sortedNames ((selected.filter fun endpoint => config.proxied endpoint.service).map
            Endpoint.server)).map proxyRequest,
        sortedNames (selected.map Endpoint.server)⟩ := by
  simp only [prepareRemove, Fallible.bind_eq_ok_iff] at prepared
  obtain ⟨endpoints, planned, selected, chosen, sessions, connected, same⟩ := prepared
  refine ⟨endpoints, selected, planned, chosen, ?_⟩
  rw [← Except.ok.inj same, eq_of_connect connected]

theorem seedServer_singleton
    (found : config.services[name]? = some service) :
    seedServer config [name] = (sortedNames service.servers).headD "" := by
  simp [seedServer, found]

/-- What a scaling has computed. -/
theorem prepareScale_eq_ok
    {target : ScaleTarget}
    (prepared : prepareScale digest config view filter target = .ok preparation) :
    ∃ name service current requested changes,
      config.services[name]? = some service ∧
      scaleChanges digest config name (sortedNames service.servers) current requested
        (view.catalog (seedServer config [name])) = changes ∧
      preparation = ⟨.scaling name changes.1 changes.2,
        ⟨.serviceScale name, seedServer config [name]⟩ ::
          (if service.proxied then affectedHosts service (seedServer config [name])
            (changes.1 ++ changes.2) else []).map proxyRequest,
        affectedHosts service (seedServer config [name]) (changes.1 ++ changes.2)⟩ := by
  unfold prepareScale at prepared
  split at prepared
  · rename_i name service only
    have found : config.services[name]? = some service := by
      rw [← ExtTreeMap.mem_toList_iff_getElem?_eq_some]
      exact List.mem_of_mem_filter (only ▸ List.mem_singleton_self _)
    rw [prepareScaleOf, ← seedServer_singleton found] at prepared
    dsimp only at prepared
    split at prepared
    · cases prepared
    · obtain ⟨sessions, connected, same⟩ := Fallible.map_eq_ok_iff.mp prepared
      refine ⟨name, service, (view.scaleOverride (seedServer config [name]) name).getD
        service.scale, requestedScale service ((view.scaleOverride (seedServer config [name])
          name).getD service.scale) target, _, found, rfl, ?_⟩
      rw [← same, eq_of_connect connected]
      cases service.proxied <;> rfl
  · cases prepared

end Specifications

section Conditions

/-- The replicas differ in their server or in their identifier. -/
def Distinguished (replicas : List Replica) : Prop :=
  (replicas.map fun replica => (replica.server, replica.replicaId)).Nodup

/-- What it takes for a command to get its locks when all of them are free.  Deployments that
replace replicas in place must not meet two replicas of proxied services on one server, and a
scaling that has no proxy to work on must change something on the first server or nothing at
all. -/
def Command.Unobstructed (config : ProjectConfig) (view : ClusterView) :
    Command → Work → Prop
  | .deploy _ _ _, .rollout replicas => Distinguished replicas
  | .restart _ _, .rollout replicas | .rollback _ _, .rollout replicas =>
      Distinguished replicas ∧
        ((replicas.filter fun replica => config.proxied replica.service).map
          Replica.server).Nodup
  | .remove _ _, .removal endpoints =>
      endpoints.Pairwise fun left right => left.server = right.server →
        ∀ leftRecord ∈ ownedRecords (view.catalog left.server) left,
        ∀ rightRecord ∈ ownedRecords (view.catalog right.server) right,
          leftRecord.replicaId ≠ rightRecord.replicaId
  | .scale _ _, .scaling name additions removals =>
      config.proxied name = true ∨ additions ++ removals = [] ∨
        seedServer config [name] ∈ (additions ++ removals).map Replica.server
  | _, _ => False

theorem nodup_replicaRequests_iff {replicas : List Replica} :
    (replicas.map replicaRequest).Nodup ↔ Distinguished replicas := by
  have injective : Function.Injective fun place : String × String =>
      LockRequest.mk (.logicalReplica place.2) place.1 := by
    rintro ⟨leftServer, leftId⟩ ⟨rightServer, rightId⟩ same
    simp_all
  rw [Distinguished, ← List.nodup_map_iff injective, List.map_map]
  rfl

theorem nodup_proxyRequests_iff {hosts : List String} :
    (hosts.map proxyRequest).Nodup ↔ hosts.Nodup :=
  List.nodup_map_iff fun left right same => by simpa [proxyRequest] using same

theorem replicaRequest_ne_proxyRequest (replica : Replica) (host : String) :
    replicaRequest replica ≠ proxyRequest host := by
  simp [replicaRequest, proxyRequest]

/-- Replica locks and proxy locks do not meet. -/
theorem nodup_requests_iff {replicas : List Replica} {hosts : List String} :
    (replicas.map replicaRequest ++ hosts.map proxyRequest).Nodup ↔
      Distinguished replicas ∧ hosts.Nodup := by
  rw [List.nodup_append, nodup_replicaRequests_iff, nodup_proxyRequests_iff]
  refine and_congr_right fun _ => and_iff_left_iff_imp.mpr fun _ => ?_
  intro left leftMember right rightMember
  obtain ⟨replica, _, rfl⟩ := List.mem_map.mp leftMember
  obtain ⟨host, _, rfl⟩ := List.mem_map.mp rightMember
  exact replicaRequest_ne_proxyRequest replica host

/-- The requests of a replacement are those for its replicas and for the proxies of the
proxied ones. -/
theorem replacementRequests_perm {config : ProjectConfig} (replicas : List Replica) :
    (replicas.flatMap (replacementRequests config)).Perm
      (replicas.map replicaRequest ++
        ((replicas.filter fun replica => config.proxied replica.service).map
          Replica.server).map proxyRequest) := by
  induction replicas with
  | nil => rfl
  | cons replica replicas inductionHypothesis =>
      rw [List.flatMap_cons, List.map_cons, replacementRequests]
      by_cases proxied : config.proxied replica.service = true
      · rw [if_pos proxied, List.filter_cons, if_pos proxied]
        refine List.Perm.cons _ (List.Perm.trans (List.Perm.cons _ inductionHypothesis) ?_)
        exact List.perm_middle.symm
      · rw [if_neg proxied, List.filter_cons, if_neg proxied]
        exact List.Perm.cons _ inductionHypothesis

theorem distinguished_discover_iff {view : ClusterView} {endpoints : List Endpoint} :
    Distinguished (endpoints.flatMap (discover view)) ↔
      endpoints.Pairwise fun left right => left.server = right.server →
        ∀ leftRecord ∈ ownedRecords (view.catalog left.server) left,
        ∀ rightRecord ∈ ownedRecords (view.catalog right.server) right,
          leftRecord.replicaId ≠ rightRecord.replicaId := by
  rw [Distinguished, List.map_flatMap, List.nodup_flatMap]
  have distinct : ∀ endpoint ∈ endpoints, ((discover view endpoint).map fun replica =>
      (replica.server, replica.replicaId)).Nodup := by
    intro endpoint _
    rw [discover, List.map_map]
    exact (sortedNames_nodup _).map fun left right same => (Prod.mk.inj same).2
  rw [and_iff_right distinct]
  refine List.Pairwise.iff fun left right => ?_
  simp only [Function.onFun, List.disjoint_left, discover, List.map_map, List.mem_map,
    mem_sortedNames, Function.comp_apply]
  constructor
  · intro apart same leftRecord leftMember rightRecord rightMember equal
    exact apart ⟨_, ⟨leftRecord, leftMember, rfl⟩, rfl⟩
      ⟨_, ⟨rightRecord, rightMember, rfl⟩, by rw [same, equal]⟩
  · rintro apart _ ⟨_, ⟨leftRecord, leftMember, rfl⟩, rfl⟩
      ⟨_, ⟨rightRecord, rightMember, rfl⟩, equal⟩
    obtain ⟨same, ids⟩ := Prod.mk.inj equal
    exact apart same.symm leftRecord leftMember rightRecord rightMember ids.symm

/-- Being connected to the hosts of requests. -/
theorem connected_requests
    {replicas : List Replica}
    {hosts : List String}
    (servers : ∀ replica ∈ replicas, replica.server ∈ sessions)
    (proxies : ∀ host ∈ hosts, host ∈ sessions) :
    Connected sessions (replicas.map replicaRequest ++ hosts.map proxyRequest) := by
  intro request member
  rcases List.mem_append.mp member with member | member
  · obtain ⟨replica, selected, rfl⟩ := List.mem_map.mp member
    exact servers replica selected
  · obtain ⟨host, listed, rfl⟩ := List.mem_map.mp member
    exact proxies host listed

end Conditions

section Acquisition

variable {digest : ReplicaDigest} {config : ProjectConfig} {view : ClusterView}
variable {hosts services : List String} {preparation : Preparation}

/-- The locks of a preparation can be taken when they are free. -/
def Preparation.Acquirable (preparation : Preparation) : Prop :=
  Connected preparation.sessions preparation.requests ∧ preparation.requests.Nodup

theorem acquirable_deploy_iff
    {skipProxy : Bool}
    (prepared : prepareDeploy digest config view hosts services skipProxy = .ok preparation) :
    preparation.Acquirable ↔
      (Command.deploy hosts services skipProxy).Unobstructed config view preparation.work := by
  obtain ⟨endpoints, configured, effective, ingressHosts, selected, _, _, found, _, rfl⟩ :=
    prepareDeploy_eq_ok prepared
  obtain ⟨_, _, _, _, rfl⟩ := selectEffectiveReplicaEndpoints_eq_ok found
  rw [Preparation.Acquirable, Command.Unobstructed, nodup_requests_iff]
  refine (and_iff_right (connected_requests ?_ ?_)).trans (and_iff_left ?_)
  · intro replica member
    exact mem_sortedNames.mpr (List.mem_append_left _ (List.mem_map_of_mem member))
  · intro host member
    cases skipProxy with
    | true => cases member
    | false => exact mem_sortedNames.mpr (List.mem_append_right _ member)
  · cases skipProxy with
    | true => exact List.nodup_nil
    | false => exact sortedNames_nodup _

theorem acquirable_replacement_iff
    (prepared : prepareReplacement digest config hosts services = .ok preparation) :
    ∃ selected, preparation.work = .rollout selected ∧
      (preparation.Acquirable ↔ Distinguished selected ∧
        ((selected.filter fun replica => config.proxied replica.service).map
          Replica.server).Nodup) := by
  obtain ⟨endpoints, targets, selected, _, _, _, rfl⟩ := prepareReplacement_eq_ok prepared
  refine ⟨selected, rfl, ?_⟩
  have permuted : (selected.flatMap (replacementRequests config)).Perm _ :=
    replacementRequests_perm selected
  rw [Preparation.Acquirable, permuted.nodup_iff, nodup_requests_iff]
  refine and_iff_right fun request member => ?_
  refine connected_requests ?_ ?_ request (permuted.subset member)
  · intro replica member
    exact mem_sortedNames.mpr (List.mem_map_of_mem member)
  · intro host member
    obtain ⟨replica, filtered, rfl⟩ := List.mem_map.mp member
    exact mem_sortedNames.mpr (List.mem_map_of_mem (List.mem_of_mem_filter filtered))

theorem acquirable_remove_iff
    (prepared : prepareRemove config view hosts services = .ok preparation) :
    preparation.Acquirable ↔
      (Command.remove hosts services).Unobstructed config view preparation.work := by
  obtain ⟨endpoints, selected, _, _, rfl⟩ := prepareRemove_eq_ok prepared
  rw [Preparation.Acquirable, Command.Unobstructed, nodup_requests_iff,
    distinguished_discover_iff]
  refine (and_iff_right (connected_requests ?_ ?_)).trans
    (and_iff_left (sortedNames_nodup _))
  · intro replica member
    obtain ⟨endpoint, chosen, found⟩ := List.mem_flatMap.mp member
    obtain ⟨_, _, rfl⟩ := List.mem_map.mp found
    exact mem_sortedNames.mpr (List.mem_map_of_mem chosen)
  · intro host member
    obtain ⟨endpoint, filtered, rfl⟩ := List.mem_map.mp (mem_sortedNames.mp member)
    exact mem_sortedNames.mpr (List.mem_map_of_mem (List.mem_of_mem_filter filtered))

/-- The first server of a service is one of its servers. -/
theorem seedServer_mem
    (valid : validateConfig config = true)
    (found : config.services[name]? = some service) :
    seedServer config [name] ∈ service.servers := by
  have some := servers_ne_nil (validService_of_validateConfig valid found)
  rw [seedServer_singleton found, ← mem_sortedNames]
  cases sorted : sortedNames service.servers with
  | nil =>
      obtain ⟨server, member⟩ := List.exists_mem_of_ne_nil _ some
      rw [← mem_sortedNames, sorted] at member
      cases member
  | cons server servers => exact List.mem_cons_self

theorem mem_affectedHosts_iff
    (eligible : seed ∈ service.servers) :
    seed ∈ affectedHosts service seed changed ↔
      service.proxied = true ∨ changed = [] ∨ seed ∈ changed.map Replica.server := by
  rw [affectedHosts, mem_sortedNames]
  by_cases proxied : service.proxied = true
  · have nonempty : changed.map Replica.server ++ service.servers ≠ [] := by
      intro empty
      rw [(List.append_eq_nil_iff.mp empty).2] at eligible
      cases eligible
    simp [proxied, nonempty, eligible]
  · cases changed with
    | nil => simp [proxied]
    | cons replica changed => simp [proxied]

theorem nodup_scaleRequests
    {service : ServiceSpec}
    {changed : List Replica} :
    (⟨.serviceScale name, seed⟩ ::
      (if service.proxied then affectedHosts service seed changed else []).map
        proxyRequest).Nodup := by
  rw [List.nodup_cons, nodup_proxyRequests_iff]
  refine ⟨by simp [proxyRequest], ?_⟩
  split
  · exact sortedNames_nodup _
  · exact List.nodup_nil

theorem mem_affectedHosts_of_changed
    {seed : String}
    {changed : List Replica}
    {replica : Replica}
    (member : replica ∈ changed) :
    replica.server ∈ affectedHosts service seed changed := by
  have listed : replica.server ∈ changed.map Replica.server ++
      if service.proxied then service.servers else [] :=
    List.mem_append_left _ (List.mem_map_of_mem member)
  rw [affectedHosts, mem_sortedNames, if_neg (List.ne_nil_of_mem listed)]
  exact listed

theorem affectedHosts_ne_nil (service : ServiceSpec) (seed : String) (changed : List Replica) :
    affectedHosts service seed changed ≠ [] := by
  unfold affectedHosts
  generalize changed.map Replica.server ++ (if service.proxied then service.servers else []) =
    affected
  dsimp only
  split
  · exact List.ne_nil_of_mem (mem_sortedNames.mpr (List.mem_singleton_self seed))
  · rename_i nonempty
    obtain ⟨name, member⟩ := List.exists_mem_of_ne_nil _ nonempty
    exact List.ne_nil_of_mem (mem_sortedNames.mpr member)

theorem acquirable_scale_iff
    {target : ScaleTarget}
    (valid : validateConfig config = true)
    (prepared : prepareScale digest config view filter target = .ok preparation) :
    preparation.Acquirable ↔
      (Command.scale filter target).Unobstructed config view preparation.work := by
  obtain ⟨name, service, current, requested, changes, found, _, rfl⟩ :=
    prepareScale_eq_ok prepared
  have proxied : config.proxied name = service.proxied := by
    simp [ProjectConfig.proxied, found]
  rw [Preparation.Acquirable, Command.Unobstructed, and_iff_left nodup_scaleRequests, proxied,
    ← mem_affectedHosts_iff (seedServer_mem valid found), Connected, List.forall_mem_cons]
  refine and_iff_left fun request member => ?_
  obtain ⟨host, listed, rfl⟩ := List.mem_map.mp member
  split at listed
  · exact listed
  · cases listed

/-- The replicas that a scaling adds or removes. -/
def Work.changed : Work → List Replica
  | .scaling _ additions removals => additions ++ removals
  | _ => []

/-- The hosts whose sessions a scaling looks up: those of its locks, the one that it writes the
desired state to, which is the first that it is connected to, and those of its changes. -/
def Preparation.lookups (preparation : Preparation) : List String :=
  preparation.requests.map LockRequest.host ++ preparation.sessions.headD "" ::
    preparation.work.changed.map Replica.server

/-- A scaling is connected to the hosts that it looks up exactly if it is unobstructed. -/
theorem scale_lookups_connected_iff
    (digest : ReplicaDigest)
    (config : ProjectConfig)
    (view : ClusterView)
    (filter : String)
    (target : ScaleTarget)
    (preparation : Preparation)
    (prepared : (Command.scale filter target).prepare digest config view = .ok preparation) :
    (∀ host ∈ preparation.lookups, host ∈ preparation.sessions) ↔
      (Command.scale filter target).Unobstructed config view preparation.work := by
  obtain ⟨valid, prepared⟩ := Fallible.guarded_eq_ok_iff.mp prepared
  rw [← acquirable_scale_iff valid prepared, Preparation.Acquirable, Preparation.lookups,
    List.forall_mem_append, List.forall_mem_map, List.forall_mem_cons]
  obtain ⟨name, service, current, requested, changes, _, _, rfl⟩ := prepareScale_eq_ok prepared
  refine and_congr Iff.rfl (iff_of_true ⟨?_, ?_⟩ nodup_scaleRequests)
  · obtain ⟨first, rest, hosts⟩ := List.exists_cons_of_ne_nil
      (affectedHosts_ne_nil service (seedServer config [name]) (changes.1 ++ changes.2))
    simp [hosts]
  · intro host member
    obtain ⟨replica, changed, rfl⟩ := List.mem_map.mp member
    exact mem_affectedHosts_of_changed changed

/-- If no lock that a command requests is held and every host answers, the command gets its
locks in the first pass exactly if it is unobstructed. -/
theorem acquire_free_iff
    (digest : ReplicaDigest)
    (config : ProjectConfig)
    (view : ClusterView)
    (command : Command)
    (preparation : Preparation)
    (info : LockInfo)
    (now : ℕ)
    (force : Bool)
    (fleet : Fleet)
    (prepared : command.prepare digest config view = .ok preparation)
    (free : Free config.project info preparation.requests fleet) :
    ((OwnedDeploymentLocks.acquire config.project preparation.sessions info now force
        preparation.requests 0).answer fleet).1.isOk = true ↔
      command.Unobstructed config view preparation.work := by
  rw [isOk_acquire_iff free, List.nodup_map_iff (place_injective config.project)]
  obtain ⟨valid, prepared⟩ := Fallible.guarded_eq_ok_iff.mp prepared
  cases command with
  | deploy hosts services skipProxy => exact acquirable_deploy_iff prepared
  | restart hosts services =>
      obtain ⟨selected, work, acquirable⟩ := acquirable_replacement_iff prepared
      rw [work]
      exact acquirable
  | rollback hosts services =>
      obtain ⟨selected, work, acquirable⟩ := acquirable_replacement_iff prepared
      rw [work]
      exact acquirable
  | remove hosts services => exact acquirable_remove_iff prepared
  | scale filter target => exact acquirable_scale_iff valid prepared

end Acquisition

section Samples

/-- A digest that tells the replicas of the samples apart. -/
def sampleReplicaDigest : ReplicaDigest := fun key _ => UInt8.ofNat (key.toList.map Char.toNat).sum

/-- A service in the bridge network that keeps no state. -/
def sampleService (servers : List String) (scale : ℕ) (proxied : Bool) : ServiceSpec :=
  ⟨servers, scale, proxied, "bridge", false, false, false, false⟩

/-- Two replicas of a proxied service on one server. -/
def samplePair : ProjectConfig :=
  ⟨"p", .ofList [("a", "1")], .ofList [("w", sampleService ["a"] 2 true)]⟩

/-- No scale is overridden and nothing is deployed. -/
def sampleView : ClusterView := ⟨fun _ _ => none, fun _ => []⟩

def sampleLockInfo : LockInfo := ⟨"jiji", 1000, "op", 7, some "i"⟩

/-- What a deployment of the two replicas prepares. -/
def samplePreparation : Preparation :=
  ⟨.rollout [⟨"w", "a", "w-787878787878"⟩, ⟨"w", "a", "w-797979797979"⟩],
    [⟨.logicalReplica "w-787878787878", "a"⟩, ⟨.logicalReplica "w-797979797979", "a"⟩,
      ⟨.hostGlobalProxy, "a"⟩],
    ["a"]⟩

theorem acquire_free_samplePair :
    ((OwnedDeploymentLocks.acquire "p" samplePreparation.sessions sampleLockInfo 1000 false
      samplePreparation.requests 0).answer fun _ _ => none).1.isOk = true := by
  have prepared : (Command.deploy [] [] false).prepare sampleReplicaDigest samplePair sampleView =
      .ok samplePreparation := by decide
  refine (acquire_free_iff sampleReplicaDigest samplePair sampleView _ _ sampleLockInfo 1000 false
    (fun _ _ => none) prepared (fun _ _ => ⟨rfl, rfl⟩)).mpr ?_
  change Distinguished _
  unfold Distinguished
  decide

/-- A restart of the two replicas asks for the lock of the proxy twice and fails on the second
request. -/
theorem restart_held_by_itself :
    ∃ preparation, (Command.restart [] []).prepare sampleReplicaDigest samplePair sampleView =
        .ok preparation ∧
      ((OwnedDeploymentLocks.acquire "p" preparation.sessions sampleLockInfo 1000 false
        preparation.requests 0).answer fun _ _ => none).1.isOk = false := by
  have prepared : (Command.restart [] []).prepare sampleReplicaDigest samplePair sampleView =
      .ok ⟨samplePreparation.work,
        [⟨.logicalReplica "w-787878787878", "a"⟩, ⟨.hostGlobalProxy, "a"⟩,
          ⟨.logicalReplica "w-797979797979", "a"⟩, ⟨.hostGlobalProxy, "a"⟩], ["a"]⟩ := by
    decide
  refine ⟨_, prepared, ?_⟩
  rw [← Bool.not_eq_true, isOk_acquire_iff fun _ _ => ⟨rfl, rfl⟩]
  decide

/-- A service without a proxy on two servers. -/
def sampleSpread : ProjectConfig :=
  ⟨"p", .ofList [("a", "1"), ("b", "2")], .ofList [("w", sampleService ["a", "b"] 1 false)]⟩

/-- Only the replica on the first server is active. -/
def sampleHalf : ClusterView :=
  ⟨fun _ _ => none, fun _ => [⟨"p", 0, 1, 2, "w", "w-787878787878", "a", 1, 1, "d", 0, [], "",
    .active, .healthy⟩]⟩

/-- A scaling that changes nothing. -/
theorem scale_lookups_connected_unchanged :
    ∃ preparation, (Command.scale "w" (.to 0)).prepare sampleReplicaDigest
        ⟨"p", .ofList [("a", "1")], .ofList [("w", sampleService ["a"] 0 false)]⟩ sampleView =
          .ok preparation ∧
      ∀ host ∈ preparation.lookups, host ∈ preparation.sessions := by
  have prepared : (Command.scale "w" (.to 0)).prepare sampleReplicaDigest
      ⟨"p", .ofList [("a", "1")], .ofList [("w", sampleService ["a"] 0 false)]⟩ sampleView =
        .ok ⟨.scaling "w" [] [], [⟨.serviceScale "w", "a"⟩], ["a"]⟩ := by decide
  refine ⟨_, prepared, (scale_lookups_connected_iff _ _ _ _ _ _ prepared).mpr ?_⟩
  exact Or.inr (Or.inl rfl)

/-- A scaling that has to add the replica on the second server requests its lock on the first
one, which it is not connected to. -/
theorem scale_locks_unconnected :
    ∃ preparation, (Command.scale "w" .unchanged).prepare sampleReplicaDigest sampleSpread
        sampleHalf = .ok preparation ∧
      preparation.requests = [⟨.serviceScale "w", "a"⟩] ∧ preparation.sessions = ["b"] ∧
      ¬∀ host ∈ preparation.lookups, host ∈ preparation.sessions :=
  ⟨⟨.scaling "w" [⟨"w", "b", "w-797979797979"⟩] [], [⟨.serviceScale "w", "a"⟩], ["b"]⟩,
    by decide, rfl, rfl, by decide⟩

end Samples

end Cli
end Jiji
