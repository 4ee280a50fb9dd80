import Jiji.Agent.Api
import Jiji.Cli.Placement

/-!
# Import of an old installation

The containers of an old installation get a record of their past in the catalog, unless the
replica they belong to is live.  Whether it is live is read off the first record of the replica,
while a replica has one record for each of its deployments.
-/

namespace Jiji
namespace Cli

open Std (ExtTreeMap)
open Network Agent Fallible

section Discovery

/-- A container of a project, with its labels. -/
structure ContainerSummary where
  name : String
  service : Option String
  server : Option String
  deriving DecidableEq, Repr

/-- A container whose past is to be recorded. -/
structure ImportCandidate where
  server : String
  service : String
  replicaId : String
  deploymentId : String
  address : Ipv4Addr
  image : String
  deriving DecidableEq, Repr

/-- What a host answers: its engine about containers, and its agent about the catalog. -/
structure ImportHost where
  containers : Except String (List ContainerSummary)
  catalog : Except String (List CatalogRecord)
  inspectIpAddress : String → Except String (Option Ipv4Addr)
  inspectImage : String → Except String (Option String)

/-- A deployment that is neither stopped nor removed. -/
def LiveRecord (record : CatalogRecord) : Bool :=
  match record.state with
  | .stopped => false
  | .tombstoned => false
  | _ => true

def importedDeployment (container : ContainerSummary) : String := "imported-" ++ container.name

variable (digest : ReplicaDigest) (config : ProjectConfig)

/-- The container of a service on a server, as discovery finds it. -/
def oldContainer (containers : List ContainerSummary) (server service : String) :
    Option ContainerSummary :=
  containers.find? fun container =>
    container.service == some service && container.server == some server

/-- The replica that the container of a service on a server is taken for. -/
def oldReplica (server service : String) : String :=
  replicaIdFor digest config.project service server 0

/-- The container of a service that discovery looks into. -/
def importable
    (server : String)
    (containers : List ContainerSummary)
    (catalog : List CatalogRecord)
    (service : String)
    (spec : ServiceSpec) : Option ContainerSummary :=
  if spec.servers.contains server then
    (oldContainer containers server service).filter fun container =>
      !((catalog.find? fun record =>
          record.replicaId == oldReplica digest config server service).any LiveRecord) &&
        !(catalog.any fun record => record.deploymentId == importedDeployment container)
  else none

/-- Discovery for one service on one server. -/
def examine
    (server : String)
    (host : ImportHost)
    (containers : List ContainerSummary)
    (catalog : List CatalogRecord)
    (service : String × ServiceSpec) : Except String (List ImportCandidate) :=
  match importable digest config server containers catalog service.1 service.2 with
  | none => .ok []
  | some container =>
      match host.inspectIpAddress container.name with
      | .error error => .error error
      | .ok none => .ok []
      | .ok (some address) =>
          match host.inspectImage container.name with
          | .error error => .error error
          | .ok image => .ok [⟨server, service.1, oldReplica digest config server service.1,
              importedDeployment container, address, image.getD "unknown"⟩]

/-- Discovery on one server. -/
def examineHost (session : String × ImportHost) : Except String (List ImportCandidate) := do
  let containers ← session.2.containers
  let catalog ← session.2.catalog.mapError fun error =>
    s!"Agent not reachable on {session.1}: {error}. Run `jiji server setup` first."
  collect (examine digest config session.1 session.2 containers catalog) config.services.toList

def discoverCandidates (sessions : ExtTreeMap String ImportHost) :
    Except String (List ImportCandidate) :=
  collect (examineHost digest config) sessions.toList

/-- The request that records the past of a container. -/
def ImportCandidate.commit (candidate : ImportCandidate) : CatalogCommit where
  service := candidate.service
  replicaId := candidate.replicaId
  deploymentId := candidate.deploymentId
  address := candidate.address.display
  ports := []
  image := candidate.image
  state := .stopped
  health := .unknown

/-- What is said about an answer that is no confirmation. -/
def commitFailure (debug : ResponseBody → String) (candidate : ImportCandidate) :
    Except String ResponseBody → Option String
  | .ok (.catalogCommitted _) => none
  | .ok other => some s!"{candidate.server}: unexpected response {debug other}"
  | .error error => some s!"{candidate.server}: {error}"

/-- Send a commit for every candidate, whatever becomes of those before it.  The result comes
with the commits that were sent, and the server each was sent to. -/
def commitCandidates
    (debug : ResponseBody → String)
    (reply : ImportCandidate → Except String ResponseBody)
    (candidates : List ImportCandidate) : Except String Unit × List (String × CatalogCommit) :=
  let failures := candidates.filterMap fun candidate =>
    commitFailure debug candidate (reply candidate)
  let listed := "; ".intercalate failures
  (if failures.isEmpty then .ok ()
    else .error s!"Import failed for {failures.length} replica(s): {listed}",
    candidates.map fun candidate => (candidate.server, candidate.commit))

/-- Discover the candidates and commit them. -/
def importContainers
    (debug : ResponseBody → String)
    (reply : ImportCandidate → Except String ResponseBody)
    (sessions : ExtTreeMap String ImportHost) :
    Except String Unit × List (String × CatalogCommit) :=
  match discoverCandidates digest config sessions with
  | .error error => (.error error, [])
  | .ok candidates => commitCandidates debug reply candidates

end Discovery

section Conditions

/-- Some deployment of a replica is live. -/
def HasLive (catalog : List CatalogRecord) (replicaId : String) : Prop :=
  ∃ record ∈ catalog, record.replicaId = replicaId ∧ LiveRecord record

variable (digest : ReplicaDigest) (config : ProjectConfig) (sessions : ExtTreeMap String ImportHost)

/-- A host that discovery asks does not answer. -/
def ReadFails : Prop :=
  ∃ server host, sessions[server]? = some host ∧
    ((∃ error, host.containers = .error error) ∨ (∃ error, host.catalog = .error error) ∨
      ∃ containers catalog service spec container, host.containers = .ok containers ∧
        host.catalog = .ok catalog ∧ config.services[service]? = some spec ∧
        importable digest config server containers catalog service spec = some container ∧
        ((∃ error, host.inspectIpAddress container.name = .error error) ∨
          ∃ address error, host.inspectIpAddress container.name = .ok (some address) ∧
            host.inspectImage container.name = .error error))

/-- The first record of a replica tells whether it is live, where a container would be imported
for it. -/
def FirstTells : Prop :=
  ∀ server host containers catalog service spec container, sessions[server]? = some host →
    host.containers = .ok containers → host.catalog = .ok catalog →
    config.services[service]? = some spec → server ∈ spec.servers →
    oldContainer containers server service = some container →
    HasLive catalog (oldReplica digest config server service) →
      (∃ first, catalog.find? (fun record =>
        record.replicaId == oldReplica digest config server service) = some first ∧ LiveRecord first) ∨
      (∃ record ∈ catalog, record.deploymentId = importedDeployment container) ∨
      host.inspectIpAddress container.name = .ok none

end Conditions

section Proofs

variable {digest : ReplicaDigest} {config : ProjectConfig} {server service : String}
variable {host : ImportHost} {containers : List ContainerSummary} {catalog : List CatalogRecord}
variable {spec : ServiceSpec} {container : ContainerSummary}

/-- The container that discovery looks into. -/
theorem importable_eq_some_iff :
    importable digest config server containers catalog service spec = some container ↔
      server ∈ spec.servers ∧ oldContainer containers server service = some container ∧
      (∀ first, catalog.find? (fun record =>
        record.replicaId == oldReplica digest config server service) = some first →
          ¬LiveRecord first) ∧
      ∀ record ∈ catalog, record.deploymentId ≠ importedDeployment container := by
  unfold importable
  cases found : catalog.find? fun record =>
      record.replicaId == oldReplica digest config server service with
  | none => simp [Option.filter_eq_some_iff]
  | some first => simp [Option.filter_eq_some_iff]

/-- The failures of discovery for one service. -/
theorem examine_eq_error_iff :
    (∃ error, examine digest config server host containers catalog (service, spec) =
        .error error) ↔
      ∃ container,
        importable digest config server containers catalog service spec = some container ∧
        ((∃ error, host.inspectIpAddress container.name = .error error) ∨
          ∃ address error, host.inspectIpAddress container.name = .ok (some address) ∧
            host.inspectImage container.name = .error error) := by
  unfold examine
  cases looked : importable digest config server containers catalog service spec with
  | none => simp
  | some container =>
      cases known : host.inspectIpAddress container.name with
      | error error => simp [known]
      | ok answer =>
          cases answer with
          | none => simp [known]
          | some address =>
              cases image : host.inspectImage container.name <;> simp [known, image]

/-- The candidates of discovery for one service. -/
theorem examine_eq_ok
    (examined : examine digest config server host containers catalog (service, spec) =
      .ok candidates) :
    (∃ candidate ∈ candidates, candidate.server = place ∧ candidate.replicaId = replicaId) ↔
      place = server ∧ replicaId = oldReplica digest config server service ∧
      ∃ container address,
        importable digest config server containers catalog service spec = some container ∧
        host.inspectIpAddress container.name = .ok (some address) := by
  unfold examine at examined
  split at examined
  · rename_i nothing
    obtain rfl := Except.ok.inj examined
    simp [nothing]
  · rename_i container looked
    split at examined
    · cases examined
    · rename_i unknown
      obtain rfl := Except.ok.inj examined
      simp [looked, unknown]
    · rename_i address known
      split at examined
      · cases examined
      · obtain rfl := Except.ok.inj examined
        simp [looked, known, eq_comm]

variable {sessions : ExtTreeMap String ImportHost}

/-- Discovery fails exactly if a host does not answer. -/
theorem discoverCandidates_eq_error_iff :
    (∃ error, discoverCandidates digest config sessions = .error error) ↔
      ReadFails digest config sessions := by
  rw [discoverCandidates, collect_eq_error_iff, ReadFails]
  constructor
  · rintro ⟨⟨server, host⟩, listed, error, fails⟩
    refine ⟨server, host, ExtTreeMap.mem_toList_iff_getElem?_eq_some.mp listed, ?_⟩
    cases hostContainers : host.containers with
    | error error => exact Or.inl ⟨error, rfl⟩
    | ok containers =>
        cases hostCatalog : host.catalog with
        | error error => exact Or.inr (Or.inl ⟨error, rfl⟩)
        | ok catalog =>
            simp only [examineHost, hostContainers, hostCatalog] at fails
            obtain ⟨⟨service, spec⟩, named, examined⟩ := collect_eq_error_iff.mp ⟨error, fails⟩
            obtain ⟨container, looked, unanswered⟩ := examine_eq_error_iff.mp examined
            exact Or.inr (Or.inr ⟨containers, catalog, service, spec, container, rfl, rfl,
              ExtTreeMap.mem_toList_iff_getElem?_eq_some.mp named, looked, unanswered⟩)
  · rintro ⟨server, host, listed, unanswered⟩
    refine ⟨(server, host), ExtTreeMap.mem_toList_iff_getElem?_eq_some.mpr listed, ?_⟩
    obtain ⟨error, fails⟩ | ⟨error, fails⟩ | ⟨containers, catalog, service, spec, container,
      hostContainers, hostCatalog, named, looked, fails⟩ := unanswered
    · exact ⟨error, by simp [examineHost, fails, bind, Except.bind]⟩
    · cases hostContainers : host.containers with
      | error error => exact ⟨error, by simp [examineHost, hostContainers, bind, Except.bind]⟩
      | ok containers =>
          simp [examineHost, hostContainers, fails, bind, Except.bind, Except.mapError]
    · have examined : ∃ error, collect (examine digest config server host containers catalog)
          config.services.toList = .error error :=
        collect_eq_error_iff.mpr ⟨(service, spec),
          ExtTreeMap.mem_toList_iff_getElem?_eq_some.mpr named,
          examine_eq_error_iff.mpr ⟨container, looked, fails⟩⟩
      simpa [examineHost, hostContainers, hostCatalog, bind, Except.bind, Except.mapError]
        using examined

/-- What discovery on one server is made of. -/
theorem examineHost_eq_ok
    (examined : examineHost digest config (server, host) = .ok candidates) :
    ∃ containers catalog, host.containers = .ok containers ∧ host.catalog = .ok catalog ∧
      collect (examine digest config server host containers catalog) config.services.toList =
        .ok candidates := by
  obtain ⟨containers, listed, examined⟩ := bind_eq_ok_iff.mp examined
  obtain ⟨catalog, read, examined⟩ := bind_eq_ok_iff.mp examined
  exact ⟨containers, catalog, listed, mapError_eq_ok_iff.mp read, examined⟩

/-- Every listed service of a server was examined. -/
theorem examined_of_discovered
    (discovered : discoverCandidates digest config sessions = .ok candidates)
    (listed : sessions[server]? = some host)
    (hostContainers : host.containers = .ok containers)
    (hostCatalog : host.catalog = .ok catalog)
    (named : config.services[service]? = some spec) :
    ∃ found, examine digest config server host containers catalog (service, spec) = .ok found ∧
      ∀ candidate ∈ found, candidate ∈ candidates := by
  cases onHost : examineHost digest config (server, host) with
  | error error =>
      obtain ⟨_, fails⟩ := collect_eq_error_iff.mpr
        ⟨(server, host), ExtTreeMap.mem_toList_iff_getElem?_eq_some.mpr listed, error, onHost⟩
      cases discovered.symm.trans fails
  | ok part =>
      obtain ⟨_, _, sameContainers, sameCatalog, collected⟩ := examineHost_eq_ok onHost
      obtain rfl := Except.ok.inj (hostContainers.symm.trans sameContainers)
      obtain rfl := Except.ok.inj (hostCatalog.symm.trans sameCatalog)
      have member := ExtTreeMap.mem_toList_iff_getElem?_eq_some.mpr named
      cases examined : examine digest config server host containers catalog (service, spec) with
      | error error =>
          obtain ⟨_, fails⟩ := collect_eq_error_iff.mpr ⟨(service, spec), member, error, examined⟩
          cases collected.symm.trans fails
      | ok found =>
          refine ⟨found, rfl, fun candidate inFound => (mem_of_collect_eq_ok discovered).mpr ?_⟩
          exact ⟨(server, host), ExtTreeMap.mem_toList_iff_getElem?_eq_some.mpr listed, part, onHost,
            (mem_of_collect_eq_ok collected).mpr ⟨(service, spec), member, found, examined, inFound⟩⟩

/-- A candidate was found by the examination of a service on its server. -/
theorem examined_of_mem
    (discovered : discoverCandidates digest config sessions = .ok candidates)
    (member : candidate ∈ candidates) :
    ∃ server host containers catalog service spec found, sessions[server]? = some host ∧
      host.containers = .ok containers ∧ host.catalog = .ok catalog ∧
      config.services[service]? = some spec ∧
      examine digest config server host containers catalog (service, spec) = .ok found ∧
      candidate ∈ found := by
  obtain ⟨⟨server, host⟩, listed, part, onHost, inPart⟩ :=
    (mem_of_collect_eq_ok discovered).mp member
  obtain ⟨containers, catalog, hostContainers, hostCatalog, collected⟩ := examineHost_eq_ok onHost
  obtain ⟨⟨service, spec⟩, named, found, examined, inFound⟩ :=
    (mem_of_collect_eq_ok collected).mp inPart
  exact ⟨server, host, containers, catalog, service, spec, found,
    ExtTreeMap.mem_toList_iff_getElem?_eq_some.mp listed, hostContainers, hostCatalog,
    ExtTreeMap.mem_toList_iff_getElem?_eq_some.mp named, examined, inFound⟩

end Proofs

/-- An import commits nothing for a replica with a live deployment exactly if a host does not
answer, or the first record of every replica that a container would be imported for is live
whenever one of its records is. -/
theorem import_spares_live_replicas_iff
    (digest : ReplicaDigest)
    (config : ProjectConfig)
    (debug : ResponseBody → String)
    (reply : ImportCandidate → Except String ResponseBody)
    (sessions : ExtTreeMap String ImportHost) :
    (∀ server commit, ∀ host : ImportHost, ∀ catalog,
        (server, commit) ∈ (importContainers digest config debug reply sessions).2 →
        sessions[server]? = some host → host.catalog = .ok catalog →
        ¬HasLive catalog commit.replicaId) ↔
      ReadFails digest config sessions ∨ FirstTells digest config sessions := by
  rw [← discoverCandidates_eq_error_iff]
  cases discovered : discoverCandidates digest config sessions with
  | error error => simp [importContainers, discovered]
  | ok candidates =>
      have sent : (importContainers digest config debug reply sessions).2 =
          candidates.map fun candidate => (candidate.server, candidate.commit) := by
        simp [importContainers, discovered, commitCandidates]
      rw [sent]
      simp only [reduceCtorEq, exists_false, false_or]
      constructor
      · intro spares server host containers catalog service spec container listed hostContainers
          hostCatalog named placed found live
        by_contra untold
        simp only [not_or, not_exists, not_and] at untold
        obtain ⟨notFirst, notImported, notUnknown⟩ := untold
        have looked : importable digest config server containers catalog service spec =
            some container :=
          importable_eq_some_iff.mpr ⟨placed, found, notFirst, notImported⟩
        obtain ⟨part, examined, included⟩ :=
          examined_of_discovered discovered listed hostContainers hostCatalog named
        obtain ⟨address, known⟩ : ∃ address,
            host.inspectIpAddress container.name = .ok (some address) := by
          cases answer : host.inspectIpAddress container.name with
          | error error =>
              obtain ⟨_, fails⟩ := examine_eq_error_iff.mpr
                ⟨container, looked, Or.inl ⟨error, answer⟩⟩
              cases examined.symm.trans fails
          | ok inspected =>
              cases inspected with
              | none => exact absurd answer notUnknown
              | some address => exact ⟨address, rfl⟩
        obtain ⟨candidate, inPart, atServer, sameReplica⟩ := (examine_eq_ok examined).mpr
          ⟨rfl, rfl, container, address, looked, known⟩
        refine spares server candidate.commit host catalog ?_ listed hostCatalog ?_
        · exact List.mem_map.mpr ⟨candidate, included candidate inPart, by rw [atServer]⟩
        · rw [← sameReplica] at live
          exact live
      · intro tells server commit host catalog committed listed hostCatalog live
        obtain ⟨candidate, member, same⟩ := List.mem_map.mp committed
        obtain ⟨rfl, rfl⟩ := Prod.mk.inj same
        obtain ⟨place, owner, containers, records, service, spec, found, placeListed, hostContainers,
          ownerCatalog, named, examined, inFound⟩ := examined_of_mem discovered member
        obtain ⟨rfl, sameReplica, container, address, looked, known⟩ :=
          (examine_eq_ok examined).mp ⟨candidate, inFound, rfl, rfl⟩
        obtain rfl := Option.some.inj (listed.symm.trans placeListed)
        obtain rfl := Except.ok.inj (hostCatalog.symm.trans ownerCatalog)
        obtain ⟨placed, old, first, fresh⟩ := importable_eq_some_iff.mp looked
        have replicaLive : HasLive catalog (oldReplica digest config candidate.server service) :=
          sameReplica ▸ live
        obtain ⟨record, isFirst, firstLive⟩ | ⟨record, recorded, imported⟩ | unknown :=
          tells _ _ _ _ _ _ _ listed hostContainers hostCatalog named placed old replicaLive
        · exact first record isFirst firstLive
        · exact fresh record recorded imported
        · cases unknown.symm.trans known

/-- A project with one service on one server. -/
def importConfig : ProjectConfig where
  project := "p"
  servers := ExtTreeMap.ofList [("a", "a.example")]
  services := ({} : ExtTreeMap String ServiceSpec).insert "web"
    ⟨["a"], 1, false, "", false, false, false, false⟩

/-- A host with an old container of the service, whose catalog lists a stopped deployment of the
replica before the active one. -/
def importHost : ImportHost where
  containers := .ok [⟨"p-web", some "web", some "a"⟩]
  catalog := .ok
    [sampleDeployment "d1" "web-000000000000" "a" 1 1 .stopped .unknown,
      sampleDeployment "d2" "web-000000000000" "a" 1 2 .active .healthy]
  inspectIpAddress _ := .ok (some (Ipv4Addr.ofOctets 172 17 0 2))
  inspectImage _ := .ok none

/-- A container is imported for the replica that the second record says is live. -/
theorem import_commits_live_replica :
    (importContainers (fun _ _ => 0) importConfig (fun _ => "") (fun _ => .error "")
        (ExtTreeMap.ofList [("a", importHost)])).2.map (fun sent => sent.2.replicaId) =
      ["web-000000000000"] ∧
    (importHost.catalog.toOption.getD []).any (fun record =>
      record.replicaId == "web-000000000000" && LiveRecord record) = true := by
  decide +kernel

end Cli
end Jiji
