import Jiji.Cli.WireguardFile
import Jiji.Network.BridgeScript
import Jiji.Network.MeshEncoding

/-!
# What the name of a generation stands for

The name of a generation is computed from the plan and from the public keys.  A host that
has the generation of that name installed is left as it is, so the name should tell what
all files of the generation are.  The restore script also depends on the container engine,
which is not part of the name.
-/

namespace Jiji
namespace Cli

open Std Network
open Agent (BridgeEngineKind)

section Model

/-- The files of a generation as texts. -/
structure GenerationTexts where
  wireguardConf : Option String
  restoreScript : Option String
  addressRanges : Option String
  meshGeneration : Option String
  deriving DecidableEq

/-- The network directory of a project on a host. -/
structure GenerationHost where
  privateKey : Option String
  generations : String → GenerationTexts
  current : Option String

/-- A host on which the project was never set up. -/
def GenerationHost.vacant : GenerationHost where
  privateKey := none
  generations := fun _ => ⟨none, none, none, none⟩
  current := none

/-- What a run of network setup on a host uses: the engine, the plan, the host's server in
it, the public keys, and the private key that is made if the host has none. -/
structure GenerationRun where
  engine : BridgeEngineKind
  plan : NetworkPlan
  server : Network.ServerPlan
  publicKeys : ExtTreeMap String String
  freshKey : String

/-- The part of an endpoint before the last colon. -/
def endpointHost (endpoint : String) : List Char :=
  let text := endpoint.toList
  if ':' ∈ text then (text.rdropWhile (· ≠ ':')).dropLast else text

/-- The addresses of the peers of a server, if all of them are addresses. -/
def peerPublicIps (server : Network.ServerPlan) : Option (List Ipv4Addr) :=
  server.peers.mapM fun peer => Ipv4Addr.parse (endpointHost peer.endpoint)

def scriptParams
    (plan : NetworkPlan)
    (server : Network.ServerPlan)
    (peerPublicIps : List Ipv4Addr) : BridgeScriptParams where
  bridgeName := server.bridgeName
  bridgeInterface := server.bridgeInterface
  wireguardInterface := server.wireguardInterface
  containerSubnet := server.containerSubnet
  bridgeGateway := server.bridgeGateway
  dnsAddress := server.dnsAddress
  containerCidr := plan.containerCidr
  wireguardPort := server.wireguardPort
  peerPublicIps := peerPublicIps
  publicHost := server.publicHost

namespace GenerationRun

/-- The restore script of a run. -/
def restoreScript (run : GenerationRun) : Option String :=
  (peerPublicIps run.server).map fun addresses =>
    renderRestoreScript (scriptParams run.plan run.server addresses) run.engine

variable (sha : Sha256)

/-- The name of the generation that a run asks for. -/
def generation (run : GenerationRun) : String :=
  artifactGeneration sha (run.plan.meshGeneration sha) run.publicKeys

/-- The files that staging renders. -/
def rendered (run : GenerationRun) (privateKey : String) : Option GenerationTexts := do
  let restoreScript ← run.restoreScript
  return {
    wireguardConf :=
      some (finalizeWireguard privateKey (renderWireguardText run.server run.publicKeys))
    restoreScript := some restoreScript
    addressRanges := some (addressRangeMarker sha run.plan)
    meshGeneration := some (run.plan.meshGeneration sha ++ "\n") }

/-- Stage the files of a generation, of which some may exist. -/
def stageTexts (run : GenerationRun) (privateKey : String) (existing : GenerationTexts) :
    Option GenerationTexts := do
  let wireguardConf ← (writeGenerationFile existing.wireguardConf
    (finalizeWireguard privateKey (renderWireguardText run.server run.publicKeys))).toOption
  let script ← run.restoreScript
  let restoreScript ← (writeGenerationFile existing.restoreScript script).toOption
  let addressRanges ← (writeGenerationFile existing.addressRanges
    (addressRangeMarker sha run.plan)).toOption
  let meshGeneration ← (writeGenerationFile existing.meshGeneration
    (run.plan.meshGeneration sha ++ "\n")).toOption
  return ⟨wireguardConf, restoreScript, addressRanges, meshGeneration⟩

end GenerationRun

namespace GenerationHost

variable (sha : Sha256)

/-- Whether the installed generation was made for a plan. -/
def meshCurrent (host : GenerationHost) (plan : NetworkPlan) : Bool :=
  let text := (host.current.bind fun generation =>
    (host.generations generation).meshGeneration).getD ""
  trimWhitespace text.toList = (plan.meshGeneration sha).toList

/-- Write the marker of the address ranges into the installed generation. -/
def recordRanges (host : GenerationHost) (plan : NetworkPlan) : Option GenerationHost := do
  let generation ← host.current
  let files := host.generations generation
  let addressRanges ←
    (writeGenerationFile files.addressRanges (addressRangeMarker sha plan)).toOption
  return { host with
    generations := Function.update host.generations generation
      { files with addressRanges := addressRanges } }

def ensureKeypair (host : GenerationHost) (freshKey : String) : GenerationHost :=
  { host with privateKey := some (host.privateKey.getD freshKey) }

/-- The preflight, and the key of a host whose generation was made for another plan. -/
def prepare (host : GenerationHost) (run : GenerationRun) : Option GenerationHost :=
  if host.meshCurrent sha run.plan then host.recordRanges sha run.plan
  else some (host.ensureKeypair run.freshKey)

/-- A successful setup: the preflight, the staging if another generation is installed, and
the move of the link. -/
def setup (host : GenerationHost) (run : GenerationRun) : Option GenerationHost := do
  let prepared ← host.prepare sha run
  let privateKey ← prepared.privateKey
  let generation := run.generation sha
  if prepared.current = some generation then return prepared
  else
    let files ← run.stageTexts sha privateKey (prepared.generations generation)
    return { prepared with
      generations := Function.update prepared.generations generation files
      current := some generation }

end GenerationHost

end Model

section Setups

variable {sha : Sha256} {host next : GenerationHost} {run : GenerationRun}

theorem writeGenerationFile_eq_some
    {content : String}
    (succeeds : (writeGenerationFile existing content).toOption = some written) :
    written = some content ∧ ∀ text, existing = some text → text = content := by
  unfold writeGenerationFile at succeeds
  split at succeeds
  · rename_i same
    refine ⟨(Option.some.inj succeeds).symm, ?_⟩
    rintro text rfl
    simpa using same
  · cases succeeds

/-- Staging that succeeds leaves what it renders. -/
theorem GenerationRun.stageTexts_eq_some
    {existing files : GenerationTexts}
    (stages : run.stageTexts sha privateKey existing = some files) :
    run.rendered sha privateKey = some files := by
  obtain ⟨wireguardConf, wireguardWritten, stages⟩ := Option.bind_eq_some_iff.mp stages
  obtain ⟨script, scriptRendered, stages⟩ := Option.bind_eq_some_iff.mp stages
  obtain ⟨restoreScript, restoreWritten, stages⟩ := Option.bind_eq_some_iff.mp stages
  obtain ⟨addressRanges, rangesWritten, stages⟩ := Option.bind_eq_some_iff.mp stages
  obtain ⟨meshGeneration, meshWritten, stages⟩ := Option.bind_eq_some_iff.mp stages
  obtain rfl := Option.some.inj stages
  rw [rendered, scriptRendered, (writeGenerationFile_eq_some wireguardWritten).1,
    (writeGenerationFile_eq_some restoreWritten).1, (writeGenerationFile_eq_some rangesWritten).1,
    (writeGenerationFile_eq_some meshWritten).1]
  rfl

/-- The run that has installed the current generation. -/
def installing (sha : Sha256) (installer : Option GenerationRun) (run : GenerationRun) :
    Option GenerationRun :=
  if installer.map (GenerationRun.generation sha) = some (run.generation sha) then installer
  else some run

/-- The first of the last runs that ask for the same generation. -/
def installer (sha : Sha256) (runs : List GenerationRun) : Option GenerationRun :=
  runs.foldl (installing sha) none

/-- The current generation is the one that a run has rendered. -/
def GenerationHost.InstalledBy (sha : Sha256) (host : GenerationHost) :
    Option GenerationRun → Prop
  | none => host.current = none
  | some run => host.current = some (run.generation sha) ∧
      ∃ privateKey, host.privateKey = some privateKey ∧
        run.rendered sha privateKey = some (host.generations (run.generation sha))

/-- The preflight changes neither the installed generation nor its files nor a key. -/
theorem GenerationHost.prepare_installedBy
    {installer : Option GenerationRun}
    (installed : host.InstalledBy sha installer)
    (prepares : host.prepare sha run = some prepared) :
    prepared.InstalledBy sha installer := by
  unfold prepare at prepares
  split at prepares
  · obtain ⟨generation, current, prepares⟩ := Option.bind_eq_some_iff.mp prepares
    obtain ⟨addressRanges, written, prepares⟩ := Option.bind_eq_some_iff.mp prepares
    obtain rfl := Option.some.inj prepares
    cases installer with
    | none =>
        rw [InstalledBy, current] at installed
        cases installed
    | some earlier =>
        obtain ⟨isCurrent, privateKey, known, files⟩ := installed
        obtain rfl := Option.some.inj (current.symm.trans isCurrent)
        obtain ⟨script, scriptRendered, files⟩ := Option.bind_eq_some_iff.mp files
        have files := Option.some.inj files
        obtain ⟨rfl, kept⟩ := writeGenerationFile_eq_some written
        refine ⟨isCurrent, privateKey, known, ?_⟩
        have recorded := kept (addressRangeMarker sha earlier.plan) (by rw [← files])
        simp only [Function.update_self]
        rw [← files, ← recorded, GenerationRun.rendered, scriptRendered]
        rfl
  · obtain rfl := Option.some.inj prepares
    cases installer with
    | none => exact installed
    | some earlier =>
        obtain ⟨isCurrent, privateKey, known, files⟩ := installed
        exact ⟨isCurrent, privateKey, by simp [ensureKeypair, known], files⟩

/-- A setup leaves the generation it asks for, as the run rendered it that installed it. -/
theorem GenerationHost.setup_installedBy
    {installer : Option GenerationRun}
    (installed : host.InstalledBy sha installer)
    (ran : host.setup sha run = some next) :
    next.InstalledBy sha (installing sha installer run) ∧
      next.current = some (run.generation sha) := by
  obtain ⟨prepared, prepares, ran⟩ := Option.bind_eq_some_iff.mp ran
  obtain ⟨privateKey, known, ran⟩ := Option.bind_eq_some_iff.mp ran
  have before := prepare_installedBy installed prepares
  dsimp only at ran
  split at ran
  · rename_i current
    obtain rfl := Option.some.inj ran
    refine ⟨?_, current⟩
    cases installer with
    | none =>
        rw [InstalledBy, current] at before
        cases before
    | some earlier =>
        have same : some (earlier.generation sha) = some (run.generation sha) :=
          before.1.symm.trans current
        rw [installing, if_pos (by exact same)]
        exact before
  · rename_i stale
    obtain ⟨files, stages, ran⟩ := Option.bind_eq_some_iff.mp ran
    obtain rfl := Option.some.inj ran
    refine ⟨?_, rfl⟩
    have changed : installing sha installer run = some run := by
      refine if_neg fun same => stale ?_
      cases installer with
      | none => cases same
      | some earlier => exact before.1.trans same
    rw [changed]
    refine ⟨rfl, privateKey, known, ?_⟩
    simp only [Function.update_self]
    exact GenerationRun.stageTexts_eq_some stages

/-- After some setups the current generation is that of the last one. -/
theorem GenerationHost.setups_installedBy
    (ran : (runs ++ [last]).foldlM (GenerationHost.setup sha) .vacant = some next) :
    next.InstalledBy sha (installer sha (runs ++ [last])) ∧
      next.current = some (last.generation sha) := by
  have earlier : ∀ (runs : List GenerationRun) (host : GenerationHost),
      runs.foldlM (GenerationHost.setup sha) .vacant = some host →
        host.InstalledBy sha (installer sha runs) := by
    intro runs
    induction runs using List.reverseRecOn with
    | nil =>
        intro host ran
        obtain rfl := Option.some.inj ran
        rfl
    | append_singleton runs run inductionHypothesis =>
        intro host ran
        rw [List.foldlM_append] at ran
        obtain ⟨middle, first, second⟩ := Option.bind_eq_some_iff.mp ran
        rw [installer, List.foldl_append]
        exact (setup_installedBy (inductionHypothesis middle first) (by simpa using second)).1
  refine ⟨earlier _ _ ran, ?_⟩
  rw [List.foldlM_append] at ran
  obtain ⟨middle, first, second⟩ := Option.bind_eq_some_iff.mp ran
  exact (setup_installedBy (earlier _ _ first) (by simpa using second)).2

/-- The run that has installed the current generation is one of the runs. -/
theorem installer_mem
    (installs : installer sha runs = some first) :
    first ∈ runs := by
  induction runs using List.reverseRecOn with
  | nil => cases installs
  | append_singleton runs run inductionHypothesis =>
      rw [installer, List.foldl_append] at installs
      simp only [List.foldl_cons, List.foldl_nil, installing] at installs
      split at installs
      · exact List.mem_append_left _ (inductionHypothesis installs)
      · rw [Option.some.inj installs]
        simp

end Setups

section Names

/-- The fields over which the digest in the name of a generation is computed. -/
def artifactFields (planGeneration : String) (publicKeys : ExtTreeMap String String) :
    List String :=
  planGeneration :: publicKeys.toList.flatMap fun (server, key) => [server, key]

/-- The bytes over which the digest in the name of a generation is computed. -/
def artifactEncoding (planGeneration : String) (publicKeys : ExtTreeMap String String) :
    List UInt8 :=
  [0, 0, 0, 5] ++ (artifactFields planGeneration publicKeys).flatMap hashField

/-- Public keys are determined by their fields. -/
theorem publicKeys_eq_of_fields_eq
    {left right : ExtTreeMap String String}
    (same : (left.toList.flatMap fun (server, key) => [server, key]) =
      right.toList.flatMap fun (server, key) => [server, key]) :
    left = right := by
  have sized : ∀ (entries : List (String × String)), ∀ entry ∈ entries,
      [entry.1, entry.2].length = 2 := fun _ _ _ => rfl
  have lengths := congrArg List.length same
  simp only [List.length_flatMap, List.length_cons, List.length_nil, List.map_const',
    List.sum_replicate, smul_eq_mul] at lengths
  have chunks := map_eq_of_flatMap_eq (sized left.toList) (sized right.toList) (by omega) same
  have lists : left.toList = right.toList := by
    refine eq_of_map_eq (fun entry : String × String => [entry.1, entry.2]) ?_ chunks
    intro entry _ other _ equal
    simp only [List.cons.injEq, and_true] at equal
    exact Prod.ext equal.1 equal.2
  refine ExtTreeMap.ext_getElem? fun name => ?_
  refine Option.ext fun key => ?_
  rw [← ExtTreeMap.mem_toList_iff_getElem?_eq_some, ← ExtTreeMap.mem_toList_iff_getElem?_eq_some,
    lists]

variable {digest : List UInt8 → BitVec 256}

/-- A name gives the generation of the plan and the digest. -/
theorem artifactGeneration_inj
    (same : artifactGeneration (.ofDigest digest) (hexText 64 planNumber) publicKeys =
      artifactGeneration (.ofDigest digest) (hexText 64 otherNumber) otherKeys) :
    hexText 64 planNumber = hexText 64 otherNumber ∧
      (digest (artifactEncoding (hexText 64 planNumber) publicKeys)).toNat / 2 ^ 192 =
        (digest (artifactEncoding (hexText 64 otherNumber) otherKeys)).toNat / 2 ^ 192 := by
  have bounded : ∀ value : BitVec 256, value.toNat / 2 ^ 192 < 16 ^ 16 := by
    intro value
    have small := value.isLt
    omega
  have texts := congrArg String.toList same
  simp only [artifactGeneration, String.toList_append, List.append_assoc] at texts
  obtain ⟨plans, rest⟩ := List.append_inj texts (by rw [length_hexText, length_hexText])
  rw [List.append_right_inj] at rest
  exact ⟨String.toList_inj.mp plans,
    hexText_inj (bounded _) (bounded _) (String.toList_inj.mp rest)⟩

end Names

section Content

variable {digest : List UInt8 → BitVec 256} {run other : GenerationRun}

/-- A run on a server of a project's plan, with fields whose lengths fit eight bytes. -/
structure GenerationRun.Valid
    (digest : List UInt8 → BitVec 256)
    (project target : String)
    (run : GenerationRun) : Prop where
  planned : ∃ config : Config, config.project = project ∧
    NetworkPlanner.plan (.ofDigest digest) config = .ok run.plan
  enabled : run.plan.enabled = true
  member : run.server ∈ run.plan.servers
  named : run.server.name = target
  sized : ∀ field ∈ run.plan.meshFields ++
    artifactFields (run.plan.meshGeneration (.ofDigest digest)) run.publicKeys,
    field.utf8ByteSize < 2 ^ 64

/-- The digests of two runs agree only where the bytes agree. -/
structure DigestsApart
    (digest : List UInt8 → BitVec 256)
    (run other : GenerationRun) : Prop where
  mesh : digest (run.plan.meshFields.flatMap hashField) =
      digest (other.plan.meshFields.flatMap hashField) →
    run.plan.meshFields.flatMap hashField = other.plan.meshFields.flatMap hashField
  keys :
    let encoding (run : GenerationRun) :=
      artifactEncoding (run.plan.meshGeneration (.ofDigest digest)) run.publicKeys
    (digest (encoding run)).toNat / 2 ^ 192 = (digest (encoding other)).toNat / 2 ^ 192 →
      encoding run = encoding other

/-- The name of a generation determines the plan, the server and the public keys. -/
theorem GenerationRun.inputs_eq_of_generation_eq
    {project target : String}
    (valid : run.Valid digest project target)
    (otherValid : other.Valid digest project target)
    (collisionFree : DigestsApart digest run other)
    (same : run.generation (.ofDigest digest) = other.generation (.ofDigest digest)) :
    run.plan = other.plan ∧ run.server = other.server ∧ run.publicKeys = other.publicKeys := by
  obtain ⟨config, _, planned⟩ := valid.planned
  obtain ⟨otherConfig, _, otherPlanned⟩ := otherValid.planned
  obtain ⟨generations, digests⟩ := artifactGeneration_inj same
  have plans : run.plan = other.plan := by
    refine plan_eq_of_meshGeneration_eq planned otherPlanned ?_ collisionFree.mesh generations
    intro field member
    obtain own | others := List.mem_append.mp member
    · exact valid.sized field (List.mem_append_left _ own)
    · exact otherValid.sized field (List.mem_append_left _ others)
  refine ⟨plans, ?_, ?_⟩
  · have allocated := NetworkPlanner.plan_allocated otherPlanned
    exact List.inj_on_of_nodup_map allocated.names (plans ▸ valid.member) otherValid.member
      (valid.named.trans otherValid.named.symm)
  · have encodings := List.append_cancel_left (collisionFree.keys digests)
    have fields := flatMap_hashField_inj
      (fun field member => valid.sized field (List.mem_append_right _ member))
      (fun field member => otherValid.sized field (List.mem_append_right _ member)) encodings
    exact publicKeys_eq_of_fields_eq (List.cons.inj fields).2

/-- Runs with the same plan and keys render the same files exactly if they have the same
engine. -/
theorem GenerationRun.rendered_eq_iff
    (plans : run.plan = other.plan)
    (servers : run.server = other.server)
    (keys : run.publicKeys = other.publicKeys)
    (renders : run.rendered sha privateKey = some files) :
    other.rendered sha privateKey = some files ↔ run.engine = other.engine := by
  obtain ⟨script, scriptRendered, renders⟩ := Option.bind_eq_some_iff.mp renders
  obtain ⟨addresses, parsed, rfl⟩ := Option.map_eq_some_iff.mp scriptRendered
  obtain rfl := Option.some.inj renders
  have otherScript : other.restoreScript = some (renderRestoreScript
      (scriptParams run.plan run.server addresses) other.engine) := by
    rw [restoreScript, ← servers, parsed, plans]
    rfl
  constructor
  · intro otherRenders
    rw [rendered, otherScript] at otherRenders
    have scripts := congrArg GenerationTexts.restoreScript (Option.some.inj otherRenders)
    exact (renderRestoreScript_injective _ (Option.some.inj scripts)).symm
  · intro engines
    rw [rendered, otherScript, ← engines, ← plans, ← servers, ← keys]
    rfl

/-- After successful setups of a host the files of its current generation are those that
the last run renders exactly if the last run has the engine of the run that installed the
generation. -/
theorem generation_content_iff
    {project target : String}
    {runs : List GenerationRun}
    {last : GenerationRun}
    {host : GenerationHost}
    (valid : ∀ run ∈ runs ++ [last], run.Valid digest project target)
    (collisionFree : ∀ run ∈ runs ++ [last], ∀ other ∈ runs ++ [last],
      DigestsApart digest run other)
    (ran : (runs ++ [last]).foldlM (GenerationHost.setup (.ofDigest digest)) .vacant =
      some host) :
    (∃ generation privateKey, host.current = some generation ∧
      host.privateKey = some privateKey ∧
      last.rendered (.ofDigest digest) privateKey = some (host.generations generation)) ↔
    ∀ first, installer (.ofDigest digest) (runs ++ [last]) = some first →
      first.engine = last.engine := by
  obtain ⟨installed, current⟩ := GenerationHost.setups_installedBy ran
  cases installs : installer (.ofDigest digest) (runs ++ [last]) with
  | none =>
      rw [installs, GenerationHost.InstalledBy, current] at installed
      cases installed
  | some first =>
      rw [installs] at installed
      obtain ⟨isCurrent, privateKey, known, renders⟩ := installed
      have same := Option.some.inj (isCurrent.symm.trans current)
      have firstMember := installer_mem installs
      have lastMember : last ∈ runs ++ [last] := by simp
      obtain ⟨plans, servers, keys⟩ := GenerationRun.inputs_eq_of_generation_eq
        (valid first firstMember) (valid last lastMember)
        (collisionFree first firstMember last lastMember) same
      have sameFiles := GenerationRun.rendered_eq_iff plans servers keys renders
      constructor
      · rintro ⟨generation, otherKey, otherCurrent, otherKnown, lastRenders⟩ _ isFirst
        obtain rfl := Option.some.inj isFirst
        obtain rfl := Option.some.inj (isCurrent.symm.trans otherCurrent)
        obtain rfl := Option.some.inj (known.symm.trans otherKnown)
        exact sameFiles.mp lastRenders
      · intro engines
        exact ⟨first.generation (.ofDigest digest), privateKey, isCurrent, known,
          sameFiles.mpr (engines first rfl)⟩

/-- A setup that differs from the first one in its engine only leaves other files than it
renders. -/
theorem GenerationRun.not_rendered_of_engine_ne
    (run other : GenerationRun)
    (plans : run.plan = other.plan)
    (servers : run.server = other.server)
    (keys : run.publicKeys = other.publicKeys)
    (engines : run.engine ≠ other.engine)
    (ran : [run, other].foldlM (GenerationHost.setup sha) .vacant = some host) :
    ¬ ∃ generation privateKey, host.current = some generation ∧
      host.privateKey = some privateKey ∧
      other.rendered sha privateKey = some (host.generations generation) := by
  rintro ⟨generation, privateKey, current, known, renders⟩
  obtain ⟨installed, _⟩ := GenerationHost.setups_installedBy (show ([run] ++ [other]).foldlM
    (GenerationHost.setup sha) .vacant = some host from ran)
  have same : run.generation sha = other.generation sha := by
    rw [GenerationRun.generation, GenerationRun.generation, plans, keys]
  have installs : installer sha ([run] ++ [other]) = some run := by
    simp [installer, installing, same]
  rw [installs] at installed
  obtain ⟨isCurrent, key, isKnown, files⟩ := installed
  obtain rfl := Option.some.inj (isCurrent.symm.trans current)
  obtain rfl := Option.some.inj (isKnown.symm.trans known)
  exact engines ((rendered_eq_iff plans servers keys files).mp renders)

end Content

section Sample

/-- A digest that tells texts apart by their lengths only. -/
def sampleLengthDigest (bytes : List UInt8) : BitVec 256 := BitVec.ofNat 256 bytes.length

/-- The plan of the sample project with that digest. -/
def sampleGenerationPlan : NetworkPlan :=
  (NetworkPlanner.plan (.ofDigest sampleLengthDigest) sampleConfig).toOption.getD
    ⟨true, "p", hostRoute 0, hostRoute 0, []⟩

/-- The first server of that plan. -/
def sampleGenerationServer : Network.ServerPlan :=
  sampleGenerationPlan.servers.headD sampleServerA

/-- A setup of the first server of the sample project. -/
def sampleGenerationRun (engine : BridgeEngineKind) : GenerationRun where
  engine := engine
  plan := sampleGenerationPlan
  server := sampleGenerationServer
  publicKeys := samplePublicKeys
  freshKey := "pk"

theorem sampleGenerationPlan_planned :
    NetworkPlanner.plan (.ofDigest sampleLengthDigest) sampleConfig = .ok sampleGenerationPlan := by
  decide +kernel

theorem sampleGenerationServer_spec :
    sampleGenerationPlan.enabled = true ∧ sampleGenerationServer ∈ sampleGenerationPlan.servers ∧
      sampleGenerationServer.name = "a" := by
  decide +kernel

theorem sampleGenerationPlan_sized :
    ∀ field ∈ sampleGenerationPlan.meshFields ++
      artifactFields (sampleGenerationPlan.meshGeneration (.ofDigest sampleLengthDigest))
        samplePublicKeys, field.utf8ByteSize < 2 ^ 64 := by
  have small : (sampleGenerationPlan.meshFields ++
      artifactFields (sampleGenerationPlan.meshGeneration (.ofDigest sampleLengthDigest))
        samplePublicKeys).all (fun field => decide (field.utf8ByteSize < 2 ^ 64)) = true := by
    decide +kernel
  rw [List.all_eq_true] at small
  exact fun field member => of_decide_eq_true (small field member)

theorem sampleGenerationRun_valid (engine : BridgeEngineKind) :
    (sampleGenerationRun engine).Valid sampleLengthDigest "p" "a" where
  planned := ⟨sampleConfig, rfl, sampleGenerationPlan_planned⟩
  enabled := sampleGenerationServer_spec.1
  member := sampleGenerationServer_spec.2.1
  named := sampleGenerationServer_spec.2.2
  sized := sampleGenerationPlan_sized

/-- Setups of the sample host, one after another. -/
def sampleSetups (engines : List BridgeEngineKind) : Option GenerationHost :=
  (engines.map sampleGenerationRun).foldlM
    (GenerationHost.setup (.ofDigest sampleLengthDigest)) .vacant

/-- A setup that is repeated leaves the files that it renders. -/
theorem generation_content_iff_repeated :
    ∃ host, sampleSetups [.docker, .docker] = some host ∧
      ∃ generation privateKey, host.current = some generation ∧
        host.privateKey = some privateKey ∧
        (sampleGenerationRun .docker).rendered (.ofDigest sampleLengthDigest) privateKey =
          some (host.generations generation) := by
  have succeeds : (sampleSetups [.docker, .docker]).isSome = true := by decide +kernel
  obtain ⟨host, ran⟩ := Option.isSome_iff_exists.mp succeeds
  have only : ∀ run ∈ [sampleGenerationRun .docker] ++ [sampleGenerationRun .docker],
      run = sampleGenerationRun .docker := by simp
  have valid : ∀ run ∈ [sampleGenerationRun .docker] ++ [sampleGenerationRun .docker],
      run.Valid sampleLengthDigest "p" "a" := by
    intro run member
    rw [only run member]
    exact sampleGenerationRun_valid _
  refine ⟨host, ran, (generation_content_iff valid ?_ ran).mpr ?_⟩
  · intro run member other otherMember
    rw [only run member, only other otherMember]
    exact ⟨fun _ => rfl, fun _ => rfl⟩
  · intro first installs
    rw [only first (installer_mem installs)]

/-- A setup with another engine finds its generation installed and leaves the restore script
of the first engine. -/
theorem engine_change_keeps_restore_script :
    ∃ host, sampleSetups [.docker, .podman] = some host ∧
      ¬ ∃ generation privateKey, host.current = some generation ∧
        host.privateKey = some privateKey ∧
        (sampleGenerationRun .podman).rendered (.ofDigest sampleLengthDigest) privateKey =
          some (host.generations generation) := by
  have succeeds : (sampleSetups [.docker, .podman]).isSome = true := by decide +kernel
  obtain ⟨host, ran⟩ := Option.isSome_iff_exists.mp succeeds
  have engines : (sampleGenerationRun .docker).engine ≠ (sampleGenerationRun .podman).engine := by
    change BridgeEngineKind.docker ≠ .podman
    decide
  exact ⟨host, ran, GenerationRun.not_rendered_of_engine_ne (sampleGenerationRun .docker)
    (sampleGenerationRun .podman) rfl rfl rfl engines ran⟩

end Sample

end Cli
end Jiji
