import Jiji.Agent.Membership
import Jiji.Control.Fallible
import Jiji.Network.Interface
import Jiji.Network.Planner

/-!
# Installing a network generation

A host keeps the network of every project in a directory of its own: immutable
generations, and a link to the one that is installed.  Setup checks the address ranges
against those of the other projects, stages a generation, and activates it with a script
that moves the link and configures the interface.  A second script, rendered from the
new plan and the generation installed before, undoes an activation.
-/

namespace Jiji
namespace Cli

open Std Replication Network

/-- The files of a generation: the peers of its WireGuard configuration, the marker of
its address ranges, and the mesh generation it was made for. -/
structure GenerationFiles where
  wireguardConf : Option (List (String × List Ipv4Cidr))
  addressRanges : Option String
  meshGeneration : Option String

/-- An address of an interface with the length of its prefix; its host bits may be set. -/
structure InterfaceAddress where
  address : Ipv4Addr
  prefixLength : Fin 33
  deriving DecidableEq

/-- A single address. -/
def hostAddress (address : Ipv4Addr) : InterfaceAddress := ⟨address, 32⟩

/-- The interface of a project, with peers by their public keys. -/
abbrev MeshInterface := Interface String Ipv4Cidr InterfaceAddress

/-- The network of one project on one host. -/
structure InstalledNetwork where
  generations : String → GenerationFiles
  current : Option String
  meshLink : Bool
  interface : Option (MeshInterface)

namespace InstalledNetwork

/-- A host on which the project was never set up. -/
def vacant : InstalledNetwork where
  generations := fun _ => ⟨none, none, none⟩
  current := none
  meshLink := false
  interface := none

/-- The interface as seen from outside, where a missing one has nothing. -/
def mesh (network : InstalledNetwork) : MeshInterface :=
  network.interface.getD .blank

end InstalledNetwork

/-- The networks of a host by the slug of their project. -/
abbrev NetworkHost := ExtTreeMap String InstalledNetwork

/-- The reasons for which setup stops on a host. -/
inductive NetworkSetupError
  | projectRangeOverlap (owner : String) (existing : Ipv4Cidr)
  | immutableGeneration
  deriving DecidableEq

section Names

variable (sha : Sha256)

def projectMarkerIdentity (project : String) : String :=
  hexText 64 (sha.text project).toNat

/-- The text that records the ranges of a plan. -/
def addressRangeMarker (plan : NetworkPlan) : String :=
  projectMarkerIdentity sha plan.project ++ " " ++ plan.managementCidr.display ++ " " ++
    plan.containerCidr.display ++ "\n"

/-- The name of a generation: the plan it was made for and a digest of the public keys. -/
def artifactGeneration (planGeneration : String) (publicKeys : ExtTreeMap String String) :
    String :=
  let digest := sha.fields [0, 0, 0, 5]
    (planGeneration :: publicKeys.toList.flatMap fun (server, key) => [server, key])
  planGeneration ++ "-v5-" ++ hexText 16 (digest.toNat / 2 ^ 192)

end Names

section Preflight

/-- The words of a text. -/
def splitWhitespace (text : List Char) : List (List Char) :=
  (text.splitOnP Agent.isWhitespace).filter (· ≠ [])

def trimWhitespace (text : List Char) : List Char :=
  (text.dropWhile Agent.isWhitespace).rdropWhile Agent.isWhitespace

/-- The owner and the ranges of a marker.  A line that was not ended is skipped, and a
marker of at most two words names no owner. -/
def readRanges (directory : String) (text : String) : Option (String × List String) :=
  if '\n' ∉ text.toList then none
  else
    match (splitWhitespace (text.toList.takeWhile (· ≠ '\n'))).map String.ofList with
    | identity :: management :: container :: rest =>
        some (identity, management :: container :: rest)
    | fields => some (directory, fields)

variable (sha : Sha256)

/-- Whether the installed generation was made for a plan. -/
def generationIsCurrent (network : InstalledNetwork) (plan : NetworkPlan) : Bool :=
  let text :=
    match network.current with
    | none => ""
    | some generation =>
        if network.meshLink then ((network.generations generation).meshGeneration).getD "" else ""
  trimWhitespace text.toList = (plan.meshGeneration sha).toList

def rejectProjectRangeOverlap (owner : String) (existing : Ipv4Cidr) (plan : NetworkPlan) :
    Except NetworkSetupError Unit :=
  if existing.overlaps plan.managementCidr || existing.overlaps plan.containerCidr then
    .error (.projectRangeOverlap owner existing)
  else .ok ()

/-- Check one field of a marker; what is no network is passed over. -/
def checkRange (owner value : String) (plan : NetworkPlan) : Except NetworkSetupError Unit :=
  match Ipv4Cidr.fromStr value with
  | .error _ => .ok ()
  | .ok existing => rejectProjectRangeOverlap owner existing plan

/-- The marker of the generation that is installed. -/
def InstalledNetwork.marker (network : InstalledNetwork) : Option String :=
  network.current.bind fun generation => (network.generations generation).addressRanges

/-- Check the ranges that other projects have recorded on a host. -/
def inspectConflicts (host : NetworkHost) (plan : NetworkPlan) :
    Except NetworkSetupError Unit :=
  host.toList.forM fun (directory, network) =>
    match network.marker.bind (readRanges directory) with
    | none => .ok ()
    | some (identity, values) =>
        if identity = projectMarkerIdentity sha plan.project then .ok ()
        else values.forM fun value => checkRange identity value plan

/-- Write a file that must not change once it exists. -/
def writeGenerationFile {α : Type} [DecidableEq α] (existing : Option α) (content : α) :
    Except NetworkSetupError (Option α) :=
  if existing.all (· = content) then .ok (some content) else .error .immutableGeneration

/-- The checks made on a host before anything is prepared. -/
def preflight (host : NetworkHost) (network : InstalledNetwork) (plan : NetworkPlan) :
    Except NetworkSetupError InstalledNetwork :=
  match network.current, generationIsCurrent sha network plan with
  | some generation, true => do
      let files := network.generations generation
      let marker ← writeGenerationFile files.addressRanges (addressRangeMarker sha plan)
      return { network with
        generations := Function.update network.generations generation
          { files with addressRanges := marker } }
  | _, _ => do
      inspectConflicts sha host plan
      return network

end Preflight

section Staging

/-- The files that staging writes, in order. -/
inductive StagedFile
  | wireguardConf
  | addressRanges
  | meshGeneration

def StagedFile.all : List StagedFile := [.wireguardConf, .addressRanges, .meshGeneration]

/-- The peers of a server for which a public key is known. -/
def renderWireguard (server : Network.ServerPlan) (publicKeys : ExtTreeMap String String) :
    List (String × List Ipv4Cidr) :=
  server.peers.filterMap fun peer =>
    (publicKeys[peer.server]?).map fun key => (key, peer.allowedIps)

variable (sha : Sha256)

/-- Write one file of a generation. -/
def stageFile
    (plan : NetworkPlan)
    (server : Network.ServerPlan)
    (publicKeys : ExtTreeMap String String)
    (files : GenerationFiles) : StagedFile → Except NetworkSetupError GenerationFiles
  | .wireguardConf => do
      let written ← writeGenerationFile files.wireguardConf (renderWireguard server publicKeys)
      return { files with wireguardConf := written }
  | .addressRanges => do
      let written ← writeGenerationFile files.addressRanges (addressRangeMarker sha plan)
      return { files with addressRanges := written }
  | .meshGeneration => do
      let written ← writeGenerationFile files.meshGeneration (plan.meshGeneration sha ++ "\n")
      return { files with meshGeneration := written }

/-- Whether a host needs another generation than the one it has. -/
def activationNeeded (network : InstalledNetwork) (generation : String) : Bool :=
  network.current ≠ some generation

/-- Write the first files of a generation, up to a failure. -/
def stageFiles
    (plan : NetworkPlan)
    (server : Network.ServerPlan)
    (publicKeys : ExtTreeMap String String)
    (count : ℕ)
    (files : GenerationFiles) : Except NetworkSetupError Unit × GenerationFiles :=
  Fallible.each
    (fun _ files file => (stageFile sha plan server publicKeys files file).map ((), ·))
    0 files (StagedFile.all.take count)

/-- Stage the first files of a generation on a host that needs it. -/
def stageHost
    (plan : NetworkPlan)
    (server : Network.ServerPlan)
    (publicKeys : ExtTreeMap String String)
    (generation : String)
    (count : ℕ)
    (network : InstalledNetwork) : Except NetworkSetupError Unit × InstalledNetwork :=
  if activationNeeded network generation then
    let staged := stageFiles sha plan server publicKeys count (network.generations generation)
    (staged.1, { network with
      generations := Function.update network.generations generation staged.2 })
  else (.ok (), network)

end Staging

section Scripts

/-- The commands of the scripts, as far as they concern the network of the project.
Commands on the service manager, on the bridge and on other links are `elsewhere`. -/
inductive MeshCommand
  | elsewhere
  | requireConf (generation : String)
  | requireMeshGeneration (generation text : String)
  | linkCurrent (generation : String)
  | linkMesh
  | addInterface
  | setPrivateKey
  | replaceAddress (address : InterfaceAddress)
  | linkUp
  | syncPeers
  /-- Delete the routes that are not expected, or only the first of them. -/
  | deleteStaleRoutes (expected : List Ipv4Cidr) (limit : Option ℕ)
  | replaceRoute (route : Ipv4Cidr)
  | deleteInterface
  | unlink

/-- Delete some routes of an interface. -/
def deleteRoutes (interface : MeshInterface) (routes : List Ipv4Cidr) :
    MeshInterface :=
  routes.foldl Interface.deleteRoute interface

namespace InstalledNetwork

/-- Change the interface, which has to exist. -/
def configure
    (network : InstalledNetwork)
    (change : MeshInterface → Option (MeshInterface)) :
    Option InstalledNetwork := do
  let interface ← network.interface
  let changed ← change interface
  return { network with interface := some changed }

/-- Run one command; a command that fails ends the script. -/
def perform (network : InstalledNetwork) : MeshCommand → Option InstalledNetwork
  | .elsewhere => some network
  | .requireConf generation =>
      if (network.generations generation).wireguardConf.isSome then some network else none
  | .requireMeshGeneration generation text =>
      if (network.generations generation).meshGeneration = some (text ++ "\n") then some network
      else none
  | .linkCurrent generation => some { network with current := some generation }
  | .linkMesh => some { network with meshLink := true }
  | .addInterface => some { network with interface := some network.mesh }
  | .setPrivateKey => network.configure some
  | .replaceAddress address => network.configure fun interface =>
      some (interface.replaceAddress address)
  | .linkUp => network.configure fun interface => some { interface with up := true }
  | .syncPeers => do
      let generation ← network.current
      let configuration ← (network.generations generation).wireguardConf
      network.configure fun interface => some (interface.syncPeers configuration)
  | .deleteStaleRoutes expected limit => network.configure fun interface =>
      let stale := interface.routes.filter (· ∉ expected)
      some (deleteRoutes interface (stale.take (limit.getD stale.length)))
  | .replaceRoute route => network.configure fun interface =>
      if interface.up then some (interface.replaceRoute route) else none
  | .deleteInterface => some { network with interface := none }
  | .unlink => some { network with current := none, meshLink := false }

/-- Run a script. -/
def execute (network : InstalledNetwork) (script : List MeshCommand) :
    Option InstalledNetwork :=
  script.foldlM perform network

end InstalledNetwork

/-- Make the routes of an interface those of the peers of a server. -/
def renderRouteSync (server : Network.ServerPlan) : List MeshCommand :=
  let expected := server.peers.flatMap WireGuardPeerPlan.allowedIps
  .deleteStaleRoutes expected none :: expected.map .replaceRoute

/-- The script that activates a generation. -/
def renderActivationCommand
    (server : Network.ServerPlan)
    (meshGeneration generation : String)
    (activateMesh : Bool) : List MeshCommand :=
  if activateMesh then
    [.elsewhere, .elsewhere, .requireConf generation,
      .requireMeshGeneration generation meshGeneration, .linkCurrent generation, .elsewhere,
      .elsewhere, .linkMesh, .addInterface, .setPrivateKey,
      .replaceAddress (hostAddress server.managementAddress), .linkUp, .syncPeers] ++
    renderRouteSync server ++ [.elsewhere]
  else [.elsewhere]

/-- The script that goes back to what was installed before. -/
def renderRollbackCommand
    (previous : Option String)
    (server : Network.ServerPlan)
    (activateMesh : Bool) : List MeshCommand :=
  if activateMesh then
    match previous with
    | some generation =>
        [.linkCurrent generation, .elsewhere, .elsewhere, .linkMesh, .elsewhere, .syncPeers] ++
        renderRouteSync server ++ [.elsewhere]
    | none => [.deleteInterface, .unlink, .elsewhere]
  else [.elsewhere]

/-- The part of a script that ran before it was cut off after some commands, or in the
middle of the deletion of routes. -/
def interrupted (script : List MeshCommand) (commands deletions : ℕ) : List MeshCommand :=
  match script[commands]? with
  | some (.deleteStaleRoutes expected _) =>
      script.take commands ++ [.deleteStaleRoutes expected (some deletions)]
  | _ => script.take commands

end Scripts

section Links

/-- The generation that is installed after a command. -/
def MeshCommand.installs (current : Option String) : MeshCommand → Option String
  | .linkCurrent generation => some generation
  | .unlink => none
  | _ => current

/-- Configuring the interface changes nothing else. -/
theorem InstalledNetwork.configure_eq_some_iff
    {network next : InstalledNetwork}
    {change : MeshInterface → Option (MeshInterface)} :
    network.configure change = some next ↔
      ∃ interface changed, network.interface = some interface ∧
        change interface = some changed ∧
        next = { network with interface := some changed } := by
  simp only [configure, Option.bind_eq_bind, Option.bind_eq_some_iff, Option.pure_def,
    Option.some.injEq]
  constructor
  · rintro ⟨interface, present, changed, succeeds, rfl⟩
    exact ⟨interface, changed, present, succeeds, rfl⟩
  · rintro ⟨interface, changed, present, succeeds, rfl⟩
    exact ⟨interface, present, changed, succeeds, rfl⟩

/-- Commands write no file of a generation, and move the link as they say. -/
theorem InstalledNetwork.perform_files
    {network next : InstalledNetwork}
    (ran : network.perform command = some next) :
    next.generations = network.generations ∧
      next.current = command.installs network.current := by
  have configured : ∀ {change}, network.configure change = some next →
      next.generations = network.generations ∧ next.current = network.current := by
    intro change succeeds
    obtain ⟨_, _, _, _, rfl⟩ := configure_eq_some_iff.mp succeeds
    exact ⟨rfl, rfl⟩
  cases command with
  | elsewhere | linkCurrent | linkMesh | addInterface | deleteInterface | unlink =>
      obtain rfl := Option.some.inj ran
      exact ⟨rfl, rfl⟩
  | requireConf | requireMeshGeneration =>
      obtain ⟨_, same⟩ := Option.ite_none_right_eq_some.mp ran
      obtain rfl := Option.some.inj same
      exact ⟨rfl, rfl⟩
  | setPrivateKey | replaceAddress | linkUp | deleteStaleRoutes | replaceRoute =>
      exact configured ran
  | syncPeers =>
      obtain ⟨_, _, remaining⟩ := Option.bind_eq_some_iff.mp ran
      obtain ⟨_, _, succeeds⟩ := Option.bind_eq_some_iff.mp remaining
      exact configured succeeds

theorem InstalledNetwork.execute_files
    {network final : InstalledNetwork}
    (ran : network.execute script = some final) :
    final.generations = network.generations ∧
      final.current = script.foldl MeshCommand.installs network.current := by
  induction script generalizing network with
  | nil =>
      obtain rfl : network = final := by simpa [execute] using ran
      exact ⟨rfl, rfl⟩
  | cons command script inductionHypothesis =>
      obtain ⟨next, first, rest⟩ := Option.bind_eq_some_iff.mp ran
      obtain ⟨sameFiles, moved⟩ := perform_files first
      obtain ⟨finalFiles, finalCurrent⟩ := inductionHypothesis rest
      exact ⟨finalFiles.trans sameFiles, by rw [finalCurrent, moved, List.foldl_cons]⟩

/-- Synchronising routes leaves the link alone. -/
theorem foldl_installs_routeSync (server : Network.ServerPlan) (current : Option String) :
    (renderRouteSync server).foldl MeshCommand.installs current = current := by
  have replaced : ∀ routes : List Ipv4Cidr,
      (routes.map MeshCommand.replaceRoute).foldl MeshCommand.installs current = current := by
    intro routes
    induction routes with
    | nil => rfl
    | cons route routes inductionHypothesis => exact inductionHypothesis
  exact replaced _

/-- A whole activation installs its generation. -/
theorem foldl_installs_activation
    (server : Network.ServerPlan)
    (mesh generation : String)
    (current : Option String)
    (needed : Bool)
    (settled : needed = false → current = some generation) :
    (renderActivationCommand server mesh generation needed).foldl MeshCommand.installs current =
      some generation := by
  cases needed with
  | false => exact settled rfl
  | true =>
      simp only [renderActivationCommand, if_true, List.foldl_append, foldl_installs_routeSync]
      rfl

/-- An undone activation installs what was installed before it. -/
theorem foldl_installs_rollback
    (server : Network.ServerPlan)
    (previous current : Option String) :
    (renderRollbackCommand previous server true).foldl MeshCommand.installs current =
      previous := by
  cases previous with
  | none => rfl
  | some generation =>
      simp only [renderRollbackCommand, if_true, List.foldl_append, foldl_installs_routeSync]
      rfl

/-- A script that is cut off in a host that needs no activation does nothing. -/
theorem foldl_installs_idle
    (server : Network.ServerPlan)
    (mesh generation : String)
    (commands deletions : ℕ)
    (current : Option String) :
    (interrupted (renderActivationCommand server mesh generation false) commands
      deletions).foldl MeshCommand.installs current = current := by
  cases commands with
  | zero => rfl
  | succ commands =>
      simp [interrupted, renderActivationCommand, MeshCommand.installs]

end Links

end Cli
end Jiji
