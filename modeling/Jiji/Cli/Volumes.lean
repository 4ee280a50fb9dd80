import Mathlib

/-!
# Named volumes

A named volume of a service is mounted under the name of the service and its own, joined by a
hyphen.  Neither the project nor the place of the hyphen can be read off that name, so projects
with services of one name, and services of one project whose names differ by a suffix, may mount
the same volume.
-/

namespace Jiji
namespace Cli

open Std (ExtTreeMap)

section Rendering

/-- A bind mount source starts with a slash or a dot; anything else names a volume. -/
def isNamedVolumeSource (source : List Char) : Bool :=
  !(source.head? == some '/' || source.head? == some '.')

/-- The source of a mount that has one, and the rest of its text from the colon on. -/
def splitVolume (volume : String) : Option (List Char × List Char) :=
  if volume.toList.contains ':' then
    some (volume.toList.takeWhile (· != ':'), volume.toList.dropWhile (· != ':'))
  else none

def volumeName (service source : List Char) : List Char := service ++ '-' :: source

/-- The named volumes among the mounts of a service. -/
def namedSources (volumes : List String) : List (List Char) :=
  volumes.filterMap fun volume =>
    ((splitVolume volume).map Prod.fst).filter isNamedVolumeSource

end Rendering

section Removal

/-- The volumes of the services of a project. -/
structure VolumeConfig where
  project : String
  services : ExtTreeMap String (List String)

structure VolumeCandidate where
  name : List Char
  service : String
  deriving DecidableEq

structure DiscoveredVolume where
  name : List Char
  service : String
  present : Bool
  blockedBy : Option String
  deriving DecidableEq

/-- Keep the first candidate of each name. -/
def keepFirst (candidates : List VolumeCandidate) : List VolumeCandidate :=
  candidates.foldl (fun kept candidate =>
    if kept.any (·.name == candidate.name) then kept else kept ++ [candidate]) []

def computeCandidatesForService (config : VolumeConfig) (service : String) :
    List VolumeCandidate :=
  keepFirst ((namedSources (config.services.getD service [])).map fun source =>
    ⟨volumeName service.toList source, service⟩)

def computeCandidates (config : VolumeConfig) : List VolumeCandidate :=
  keepFirst (config.services.keys.flatMap (computeCandidatesForService config))

/-- The volumes of a host, and for each the containers that are attached to it, running or not,
by the project that they are labelled with. -/
structure VolumeHost where
  volumes : List (List Char)
  attached : List Char → List (Option String)

def describeBlockingAttacher (attacher : Option String) (project : String) : Option String :=
  match attacher with
  | some other => if other = project then none else some other
  | none => some "an unlabeled container"

def discoverVolumes (host : VolumeHost) (candidates : List VolumeCandidate) (project : String) :
    List DiscoveredVolume :=
  candidates.map fun candidate =>
    ⟨candidate.name, candidate.service, host.volumes.contains candidate.name,
      if host.volumes.contains candidate.name then
        (host.attached candidate.name).findSome? (describeBlockingAttacher · project)
      else none⟩

/-- Remove a volume; the engine refuses to remove one that a container is attached to. -/
def removeVolumeIfPresent (host : VolumeHost) (name : List Char) : Except String Bool × VolumeHost :=
  if host.volumes.contains name then
    if (host.attached name).isEmpty then
      (.ok true, { host with volumes := host.volumes.filter (· != name) })
    else (.error "volume is in use", host)
  else (.ok false, host)

/-- Remove the volumes that exist and that nothing blocks, up to the first failure. -/
def removeVolumes (host : VolumeHost) : List DiscoveredVolume → Except String Unit × VolumeHost
  | [] => (.ok (), host)
  | volume :: rest =>
      if !volume.present || volume.blockedBy.isSome then removeVolumes host rest
      else
        match removeVolumeIfPresent host volume.name with
        | (.error error, next) => (.error error, next)
        | (.ok _, next) => removeVolumes next rest

/-- The host after the removal of a service with its volumes. -/
def removeServiceVolumes (config : VolumeConfig) (service : String) (host : VolumeHost) :
    VolumeHost :=
  (removeVolumes host
    (discoverVolumes host (computeCandidatesForService config service) config.project)).2

/-- The host after the teardown of a project with its volumes, which were discovered before the
containers of the project were removed. -/
def teardownVolumes (config : VolumeConfig) (planned host : VolumeHost) : VolumeHost :=
  (removeVolumes host (discoverVolumes planned (computeCandidates config) config.project)).2

end Removal

section Names

/-- A service of a project that mounts a volume of a name. -/
def VolumeConfig.Mounts (config : VolumeConfig) (service : String) (name : List Char) : Prop :=
  ∃ source ∈ namedSources (config.services.getD service []), name = volumeName service.toList source

variable {config : VolumeConfig} {host : VolumeHost} {service : String} {name : List Char}
variable {volumes : List DiscoveredVolume}

end Names

section Isolation

/-- Projects whose removals delete no volume of another project, and whose services when removed
alone delete no volume of another service. -/
def Isolated (projects : List VolumeConfig) : Prop :=
  ∀ config ∈ projects,
    (∀ planned host name, name ∈ host.volumes →
      name ∉ (teardownVolumes config planned host).volumes →
      ∀ other ∈ projects, other.project ≠ config.project →
        ∀ service, ¬other.Mounts service name) ∧
    ∀ service host name, name ∈ host.volumes →
      name ∉ (removeServiceVolumes config service host).volumes →
      (∀ other ∈ projects, other.project ≠ config.project →
        ∀ service, ¬other.Mounts service name) ∧
      ∀ sibling, sibling ≠ service → ¬config.Mounts sibling name

variable {config other : VolumeConfig} {service otherService : String} {name : List Char}

end Isolation

end Cli
end Jiji
