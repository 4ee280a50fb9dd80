import Jiji.Agent.Store

/-!
# Local reconciliation

An agent repairs its own host tick by tick.  A tick lists the project's containers,
reads the catalog, and starts every container that is not running although the
catalog says that this node serves it.
-/

namespace Jiji
namespace Agent

open Network Replication

/-- The labels of a container, by key. -/
abbrev Labels := List (String × String)

/-- A container of the engine.  It is listed by its name. -/
structure Container where
  imageId : String
  labels : Labels
  running : Bool
  deriving DecidableEq, Repr

abbrev Containers := Std.ExtTreeMap String Container

/-- The container of a name is running. -/
def Running (containers : Containers) (name : String) : Prop :=
  containers[name]?.any Container.running = true

instance (containers : Containers) (name : String) : Decidable (Running containers name) :=
  inferInstanceAs (Decidable (_ = true))

/-- What a discovery pass records of a container. -/
structure Observation where
  name : String
  labels : Labels
  running : Bool
  deriving DecidableEq, Repr

/-- The labels that a discovery pass asks for. -/
def observedLabels : List String :=
  ["jiji.service", "jiji.catalog-managed", "jiji.replica", "jiji.deployment", "jiji.lease",
    "jiji.lease-owned", "jiji.lifecycle"]

/-- The observation of a container; a label that it lacks is recorded as empty. -/
def observe (name : String) (container : Container) : Observation where
  name := name
  labels := observedLabels.map fun key => (key, (container.labels.lookup key).getD "")
  running := container.running

/-- Observe the managed containers of a project. -/
def discover (project : String) (containers : Containers) : List Observation :=
  (containers.toList.filter fun (_, container) =>
      container.labels.lookup "jiji.managed" = some "true" &&
        container.labels.lookup "jiji.project" = some project).map
    fun (name, container) => observe name container

/-- The deployment of a container that reconciliation may start. -/
def Observation.restartable (observation : Observation) : Option String :=
  if observation.labels.lookup "jiji.catalog-managed" ≠ some "true" then none
  else
    match observation.labels.lookup "jiji.deployment",
        observation.labels.lookup "jiji.lifecycle" with
    | some deployment, some lifecycle =>
        if lifecycle = "candidate" ∨ lifecycle = "active" then some deployment else none
    | _, _ => none

/-- The catalog wants a deployment to run on this node. -/
def wanted
    (localNodeId : String)
    (catalog : List CatalogRecord)
    (startupCandidates : List String)
    (deployment : String) : Bool :=
  catalog.any fun record =>
    record.ownerNodeId = localNodeId && record.deploymentId = deployment &&
      (record.state = .active ||
        record.state = .candidate && startupCandidates.contains deployment)

/-- The containers that a tick starts. -/
def restartCandidates
    (localNodeId : String)
    (observations : List Observation)
    (catalog : List CatalogRecord)
    (startupCandidates : List String) : List String :=
  (observations.filter fun observation => !observation.running).filterMap fun observation =>
    observation.restartable.bind fun deployment =>
      if wanted localNodeId catalog startupCandidates deployment then some observation.name
      else none

end Agent
end Jiji
