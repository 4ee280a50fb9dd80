import Jiji.Agent.Api
import Jiji.Agent.LocalReconcile
import Jiji.Control.Machine

/-!
# Discovery of containers

A discovery pass lists the containers of the project, recovers the leases that their labels
claim, and then records the listed containers and the time of the pass.  The listing and the
two sections of the pass are separate steps, so requests are served and containers come and
go between them.
-/

namespace Jiji
namespace Agent

open Network Replication Control

/-- The lease that a container claims for its deployment. -/
structure LeaseClaim where
  deploymentId : String
  replicaId : String
  address : Ipv4Addr
  deriving DecidableEq

/-- The value of a label that is not empty. -/
def Observation.value (observation : Observation) (key : String) : Option String :=
  (observation.labels.lookup key).filter (· ≠ "")

/-- The claim that the labels of a container make. -/
def Observation.leaseClaim (observation : Observation) : Option LeaseClaim :=
  if observation.value "jiji.catalog-managed" ≠ some "true" then none
  else if observation.value "jiji.lease-owned" = some "false" then none
  else do
    let deploymentId ← observation.value "jiji.deployment"
    let replicaId ← observation.value "jiji.replica"
    let text ← observation.value "jiji.lease"
    let address ← Ipv4Addr.parse text.toList
    return ⟨deploymentId, replicaId, address⟩

/-- A container claims a lease only for the deployment that it is labelled with. -/
theorem Observation.deployment_of_leaseClaim
    {observation : Observation}
    (claims : observation.leaseClaim = some claim) :
    observation.value "jiji.deployment" = some claim.deploymentId := by
  unfold Observation.leaseClaim at claims
  split_ifs at claims
  obtain ⟨deploymentId, named, rest⟩ := Option.bind_eq_some_iff.mp claims
  obtain ⟨replicaId, _, rest⟩ := Option.bind_eq_some_iff.mp rest
  obtain ⟨text, _, rest⟩ := Option.bind_eq_some_iff.mp rest
  obtain ⟨address, _, rest⟩ := Option.bind_eq_some_iff.mp rest
  obtain rfl := Option.some.inj rest
  exact named

namespace LeaseTable

/-- Recover the lease that a container claims, unless its deployment or its address is
leased otherwise. -/
def recoverAddressLease (table : LeaseTable) (claim : LeaseClaim) : Bool × LeaseTable :=
  match table.addressLease claim.deploymentId with
  | some lease =>
      if lease.replicaId ≠ claim.replicaId ∨ lease.address ≠ claim.address then (false, table)
      else
        (true, table.put claim.deploymentId
          { lease with state := .active, quarantineUntil := none })
  | none =>
      if table.usedAddresses.contains claim.address then (false, table)
      else
        (true, table.put claim.deploymentId
          ⟨claim.deploymentId, claim.replicaId, claim.address, .active, none⟩)

/-- Recover the lease of one listed container, and count it. -/
def recoverLabeled (progress : ℕ × LeaseTable) (observation : Observation) : ℕ × LeaseTable :=
  match observation.leaseClaim with
  | none => progress
  | some claim =>
      match progress.2.recoverAddressLease claim with
      | (true, next) => (progress.1 + 1, next)
      | (false, next) => (progress.1, next)

/-- Recover the leases of the listed containers. -/
def recoverLabeledLeases (table : LeaseTable) (observations : List Observation) :
    ℕ × LeaseTable :=
  observations.foldl recoverLabeled (0, table)

/-- Record the listed containers and the time of the pass. -/
def recordObservations
    (table : LeaseTable)
    (observations : List Observation)
    (timestamp : String) : LeaseTable :=
  { table with
    claimed := observations.filterMap fun observation => observation.value "jiji.deployment"
    lastDiscoveryAt := some timestamp }

variable {table next : LeaseTable} {deploymentId : String}

/-- Recovering a lease changes nothing, or gives the claiming deployment an active lease
of the address that it had or that nobody had. -/
theorem recoverAddressLease_cases (table : LeaseTable) (claim : LeaseClaim) :
    (table.recoverAddressLease claim).2 = table ∨
      ∃ lease, (table.recoverAddressLease claim).2 = table.put claim.deploymentId lease ∧
        lease.state = .active ∧
        ((∃ before, table.addressLease claim.deploymentId = some before ∧
            lease.address = before.address) ∨
          table.addressLease claim.deploymentId = none ∧
            lease.address ∉ table.usedAddresses) := by
  unfold recoverAddressLease
  split
  · rename_i before stands
    split
    · exact Or.inl rfl
    · exact Or.inr ⟨_, rfl, rfl, Or.inl ⟨before, stands, rfl⟩⟩
  · rename_i free
    split
    · exact Or.inl rfl
    · rename_i unused
      rw [List.contains_iff_mem] at unused
      exact Or.inr ⟨_, rfl, rfl, Or.inr ⟨free, unused⟩⟩

/-- What recovering one lease keeps, recovering the leases of all listed containers
keeps. -/
theorem recoverLabeledLeases_induction
    (holds : LeaseTable → Prop)
    (observations : List Observation)
    (initially : holds table)
    (kept : ∀ table claim, holds table →
      (∃ observation ∈ observations, observation.leaseClaim = some claim) →
      holds (table.recoverAddressLease claim).2) :
    holds (table.recoverLabeledLeases observations).2 := by
  unfold recoverLabeledLeases
  generalize count : 0 = counted
  clear count
  induction observations generalizing table counted with
  | nil => exact initially
  | cons observation observations inductionHypothesis =>
      have later : ∀ table claim, holds table →
          (∃ observation ∈ observations, observation.leaseClaim = some claim) →
          holds (table.recoverAddressLease claim).2 := by
        rintro table claim before ⟨other, member, claims⟩
        exact kept table claim before ⟨other, List.mem_cons_of_mem _ member, claims⟩
      rw [List.foldl_cons]
      cases claims : observation.leaseClaim with
      | none =>
          simp only [recoverLabeled, claims]
          exact inductionHypothesis initially later counted
      | some claim =>
          have recovered := kept table claim initially ⟨observation, List.mem_cons_self, claims⟩
          simp only [recoverLabeled, claims]
          split
          · rename_i reached outcome
            rw [outcome] at recovered
            exact inductionHypothesis recovered later _
          · rename_i reached outcome
            rw [outcome] at recovered
            exact inductionHypothesis recovered later _

/-- Recovering leases does not touch a deployment that no listed container names. -/
theorem addressLease_recoverLabeledLeases
    {observations : List Observation}
    (unnamed : ∀ observation ∈ observations, ∀ claim, observation.leaseClaim = some claim →
      claim.deploymentId ≠ deploymentId) :
    (table.recoverLabeledLeases observations).2.addressLease deploymentId =
      table.addressLease deploymentId := by
  refine recoverLabeledLeases_induction (fun reached => reached.addressLease deploymentId =
    table.addressLease deploymentId) observations rfl ?_
  rintro current claim before ⟨observation, member, claims⟩
  rcases recoverAddressLease_cases current claim with same | ⟨lease, put, _⟩
  · rw [same, before]
  · rw [put, addressLease_put, if_neg (unnamed observation member claim claims).symm, before]

/-- What a request for an address does: it fails, after a collection at most, or it returns
the lease that the collection left the deployment, or a new one. -/
theorem handleAllocate_cases
    (handled : table.handleAllocate deploymentId replicaId subnet reserved timestamp =
      (result, next)) :
    (∃ error, result = .error error ∧
      (next = table ∨ ∃ removed, table.collectExpiredAddressLeases timestamp =
        .ok (removed, next))) ∨
    ∃ removed collected lease,
      table.collectExpiredAddressLeases timestamp = .ok (removed, collected) ∧
      result = .ok (.addressLease lease.deploymentId lease.replicaId lease.address.display
        lease.state.column) ∧
      (collected.addressLease deploymentId = some lease ∧ next = collected ∨
        collected.addressLease deploymentId = none ∧
          lease.address ∉ collected.usedAddresses ∧ lease.state = .active ∧
          next = collected.put deploymentId lease) := by
  unfold handleAllocate at handled
  split at handled
  · obtain ⟨rfl, rfl⟩ := Prod.mk.inj handled
    exact Or.inl ⟨_, rfl, Or.inl rfl⟩
  split at handled
  · obtain ⟨rfl, rfl⟩ := Prod.mk.inj handled
    exact Or.inl ⟨_, rfl, Or.inl rfl⟩
  rename_i addresses _
  generalize AddressAllocator.new _ addresses = allocator at handled
  unfold AddressAllocator.allocate at handled
  cases collection : table.collectExpiredAddressLeases timestamp with
  | error error =>
      simp only [collection] at handled
      obtain ⟨rfl, rfl⟩ := Prod.mk.inj handled
      exact Or.inl ⟨_, rfl, Or.inl rfl⟩
  | ok outcome =>
      obtain ⟨removed, collected⟩ := outcome
      simp only [collection] at handled
      cases existing : collected.addressLease deploymentId with
      | some lease =>
          simp only [existing] at handled
          obtain ⟨rfl, rfl⟩ := Prod.mk.inj handled
          exact Or.inr ⟨removed, collected, lease, rfl, rfl, Or.inl ⟨existing, rfl⟩⟩
      | none =>
          simp only [existing] at handled
          generalize searched : AddressAllocator.claimFirst _ _ _ _ _ _ = found at handled
          obtain ⟨outcome, reached⟩ := found
          rcases AddressAllocator.claimFirst_cases existing searched with
            ⟨error, rfl, rfl⟩ | ⟨address, unused, rfl, rfl⟩
          · obtain ⟨rfl, rfl⟩ := Prod.mk.inj handled
            exact Or.inl ⟨_, rfl, Or.inr ⟨removed, rfl⟩⟩
          · obtain ⟨rfl, rfl⟩ := Prod.mk.inj handled
            exact Or.inr ⟨removed, collected, _, rfl, rfl, Or.inr ⟨existing, unused, rfl, rfl⟩⟩

/-- What a request to release an address does: it fails and changes nothing, or it puts the
lease that the deployment has into quarantine. -/
theorem handleRelease_cases
    (handled : table.handleRelease deploymentId timestamp = (result, next)) :
    (∃ error, result = .error error ∧ next = table) ∨
      ∃ released, result = .ok (.addressReleased released) ∧ ¬next.Leased deploymentId ∧
        (next = table ∨ ∃ before lease, table.addressLease deploymentId = some before ∧
          lease.address = before.address ∧ next = table.put deploymentId lease) := by
  unfold handleRelease at handled
  split at handled
  · obtain ⟨rfl, rfl⟩ := Prod.mk.inj handled
    exact Or.inl ⟨_, rfl, rfl⟩
  · rename_i released reached quarantined
    obtain ⟨rfl, rfl⟩ := Prod.mk.inj handled
    refine Or.inr ⟨released, rfl, not_leased_of_quarantineAddressLease quarantined, ?_⟩
    unfold quarantineAddressLease at quarantined
    split at quarantined
    · cases quarantined
    split at quarantined
    · exact Or.inl (Prod.mk.inj (Except.ok.inj quarantined)).2.symm
    · rename_i before stands
      obtain ⟨_, rfl⟩ := Prod.mk.inj (Except.ok.inj quarantined)
      refine Or.inr ⟨before, _, stands, ?_, rfl⟩
      rfl

/-- Serving a request for an address gives no other deployment an active lease. -/
theorem leased_of_handleAllocate
    {reserved : List String}
    {timestamp : ℕ}
    {result : ApiResult}
    (handled : table.handleAllocate other replicaId subnet reserved timestamp = (result, next))
    (different : deploymentId ≠ other)
    (leased : next.Leased deploymentId) :
    table.Leased deploymentId := by
  obtain ⟨lease, stands, active⟩ := leased
  have ofCollected : ∀ {removed collected},
      table.collectExpiredAddressLeases timestamp = .ok (removed, collected) →
      collected.addressLease deploymentId = some lease → table.Leased deploymentId :=
    fun collection found => ⟨lease, ((addressLease_of_collect collection).mp found).1, active⟩
  rcases handleAllocate_cases handled with
    ⟨_, _, rfl | ⟨_, collection⟩⟩ | ⟨_, _, _, collection, _, ⟨_, rfl⟩ | ⟨_, _, _, rfl⟩⟩
  · exact ⟨lease, stands, active⟩
  · exact ofCollected collection stands
  · exact ofCollected collection stands
  · rw [addressLease_put, if_neg different] at stands
    exact ofCollected collection stands

/-- Serving a request to release an address gives no deployment an active lease. -/
theorem leased_of_handleRelease
    {timestamp : ℕ}
    {result : ApiResult}
    (handled : table.handleRelease other timestamp = (result, next))
    (leased : next.Leased deploymentId) :
    table.Leased deploymentId := by
  rcases handleRelease_cases handled with
    ⟨_, _, rfl⟩ | ⟨_, _, released, rfl | ⟨_, _, _, _, rfl⟩⟩
  · exact leased
  · exact leased
  · by_cases same : deploymentId = other
    · subst same
      exact absurd leased released
    · obtain ⟨lease, stands, active⟩ := leased
      rw [addressLease_put, if_neg same] at stands
      exact ⟨lease, stands, active⟩

end LeaseTable

section Loop

/-- How far the discovery loop is in its pass. -/
inductive DiscoveryPass
  | idle
  | listed (observations : List Observation)
  | recovered (observations : List Observation)
  deriving DecidableEq

/-- A host with its lease table, the containers that a listing shows and its discovery loop,
and the deployments whose release was served after their container was gone. -/
structure DiscoveryHost where
  table : LeaseTable
  containers : List Observation
  pass : DiscoveryPass
  retired : List String

inductive DiscoveryEvent
  | create (container : Observation)
  | remove (name : String)
  | allocate (deploymentId replicaId subnet : String) (reserved : List String) (timestamp : ℕ)
  | release (deploymentId : String) (timestamp : ℕ)
  | collect (timestamp : ℕ)
  | list
  | recover
  | record (timestamp : String)

namespace DiscoveryHost

/-- Some container is labelled with a deployment. -/
def runs (host : DiscoveryHost) (deploymentId : String) : Bool :=
  host.containers.any fun container => container.value "jiji.deployment" = some deploymentId

/-- A new container, or a new lease, ends the retirement of a deployment. -/
def engage (host : DiscoveryHost) (deploymentId : Option String) : List String :=
  host.retired.filter fun other => some other ≠ deploymentId

def advance (host : DiscoveryHost) : DiscoveryEvent → Option DiscoveryHost
  | .create container =>
      some { host with
        containers := host.containers ++ [container]
        retired := host.engage (container.value "jiji.deployment") }
  | .remove name =>
      some { host with
        containers := host.containers.filter fun container =>
          container.name ≠ name }
  | .allocate deploymentId replicaId subnet reserved timestamp =>
      some { host with
        table :=
          (host.table.handleAllocate deploymentId replicaId subnet reserved timestamp).2
        retired := host.engage (some deploymentId) }
  | .release deploymentId timestamp =>
      match host.table.handleRelease deploymentId timestamp with
      | (.error _, table) => some { host with table := table }
      | (.ok _, table) =>
          some { host with
            table := table
            retired :=
              if host.runs deploymentId then host.retired else deploymentId :: host.retired }
  | .collect timestamp =>
      match host.table.collectExpiredAddressLeases timestamp with
      | .error _ => some host
      | .ok (_, table) => some { host with table := table }
  | .list =>
      match host.pass with
      | .idle => some { host with pass := .listed host.containers }
      | _ => none
  | .recover =>
      match host.pass with
      | .listed observations =>
          some { host with
            table := (host.table.recoverLabeledLeases observations).2
            pass := .recovered observations }
      | _ => none
  | .record timestamp =>
      match host.pass with
      | .recovered observations =>
          some { host with
            table := host.table.recordObservations observations timestamp
            pass := .idle }
      | _ => none

/-- A release is not served for a deployment whose container is gone while a listing that
still shows the container waits to be used. -/
def Settled (host : DiscoveryHost) : DiscoveryEvent → Prop
  | .release deploymentId _ =>
      host.runs deploymentId = false → ∀ observations, host.pass = .listed observations →
        ∀ observation ∈ observations, ∀ claim, observation.leaseClaim = some claim →
          claim.deploymentId ≠ deploymentId
  | _ => True

/-- A retired deployment has no container, no listed container and no active lease. -/
structure Forgotten (host : DiscoveryHost) (deploymentId : String) : Prop where
  absent : ∀ container ∈ host.containers,
    container.value "jiji.deployment" ≠ some deploymentId
  unlisted : ∀ observations, host.pass = .listed observations →
    ∀ observation ∈ observations, ∀ claim, observation.leaseClaim = some claim →
      claim.deploymentId ≠ deploymentId
  released : ¬host.table.Leased deploymentId

variable {host next : DiscoveryHost} {event : DiscoveryEvent} {deploymentId : String}

/-- A deployment that is forgotten stays forgotten until a step engages it again. -/
theorem Forgotten.advance
    (forgotten : host.Forgotten deploymentId)
    (advanced : host.advance event = some next)
    (retired : deploymentId ∈ next.retired) :
    next.Forgotten deploymentId := by
  cases event with
  | create container =>
      obtain rfl := Option.some.inj advanced
      refine ⟨fun other member => ?_, forgotten.unlisted, forgotten.released⟩
      rcases List.mem_append.mp member with old | new
      · exact forgotten.absent other old
      · rw [List.mem_singleton.mp new]
        exact fun same => (of_decide_eq_true (List.mem_filter.mp retired).2) same.symm
  | remove name =>
      obtain rfl := Option.some.inj advanced
      exact ⟨fun other member => forgotten.absent other (List.mem_of_mem_filter member),
        forgotten.unlisted, forgotten.released⟩
  | allocate other replicaId subnet reserved timestamp =>
      obtain rfl := Option.some.inj advanced
      refine ⟨forgotten.absent, forgotten.unlisted, fun leased => forgotten.released ?_⟩
      have different : deploymentId ≠ other := by
        simpa using of_decide_eq_true (List.mem_filter.mp retired).2
      exact LeaseTable.leased_of_handleAllocate rfl different leased
  | release other timestamp =>
      simp only [DiscoveryHost.advance] at advanced
      split at advanced
      all_goals
        rename_i handled
        obtain rfl := Option.some.inj advanced
        exact ⟨forgotten.absent, forgotten.unlisted, fun leased => forgotten.released
          (LeaseTable.leased_of_handleRelease handled leased)⟩
  | collect timestamp =>
      simp only [DiscoveryHost.advance] at advanced
      split at advanced
      · obtain rfl := Option.some.inj advanced
        exact forgotten
      · rename_i collection
        obtain rfl := Option.some.inj advanced
        refine ⟨forgotten.absent, forgotten.unlisted, ?_⟩
        rintro ⟨lease, stands, active⟩
        exact forgotten.released
          ⟨lease, ((LeaseTable.addressLease_of_collect collection).mp stands).1, active⟩
  | list =>
      simp only [DiscoveryHost.advance] at advanced
      split at advanced
      · obtain rfl := Option.some.inj advanced
        refine ⟨forgotten.absent, ?_, forgotten.released⟩
        rintro observations listed observation member claim claims
        cases listed
        have absent := forgotten.absent observation member
        rw [Observation.deployment_of_leaseClaim claims] at absent
        exact fun same => absent (congrArg some same)
      · cases advanced
  | recover =>
      simp only [DiscoveryHost.advance] at advanced
      split at advanced
      · rename_i observations listed
        obtain rfl := Option.some.inj advanced
        refine ⟨forgotten.absent, by simp, ?_⟩
        rintro ⟨lease, stands, active⟩
        rw [LeaseTable.addressLease_recoverLabeledLeases
          (forgotten.unlisted observations listed)] at stands
        exact forgotten.released ⟨lease, stands, active⟩
      · cases advanced
  | record timestamp =>
      simp only [DiscoveryHost.advance] at advanced
      split at advanced
      · obtain rfl := Option.some.inj advanced
        exact ⟨forgotten.absent, by simp, forgotten.released⟩
      · cases advanced

/-- A deployment becomes retired only when its release is served while it has no container,
and is forgotten from then on. -/
theorem retired_or_forgotten
    (settled : host.Settled event)
    (advanced : host.advance event = some next)
    (retired : deploymentId ∈ next.retired) :
    deploymentId ∈ host.retired ∨ next.Forgotten deploymentId := by
  cases event with
  | create container =>
      obtain rfl := Option.some.inj advanced
      exact Or.inl (List.mem_of_mem_filter retired)
  | remove name =>
      obtain rfl := Option.some.inj advanced
      exact Or.inl retired
  | allocate other replicaId subnet reserved timestamp =>
      obtain rfl := Option.some.inj advanced
      exact Or.inl (List.mem_of_mem_filter retired)
  | release other timestamp =>
      simp only [DiscoveryHost.advance] at advanced
      split at advanced
      · obtain rfl := Option.some.inj advanced
        exact Or.inl retired
      · rename_i response table handled
        obtain rfl := Option.some.inj advanced
        cases running : host.runs other with
        | true => exact Or.inl (by simpa [running] using retired)
        | false =>
            simp only [running, Bool.false_eq_true, if_false, List.mem_cons] at retired
            rcases retired with rfl | old
            · refine Or.inr ⟨?_, settled running, ?_⟩
              · simpa [runs] using running
              · rcases LeaseTable.handleRelease_cases handled with
                  ⟨_, impossible, _⟩ | ⟨_, _, released, _⟩
                · cases impossible
                · exact released
            · exact Or.inl old
  | collect timestamp =>
      simp only [DiscoveryHost.advance] at advanced
      split at advanced <;> (obtain rfl := Option.some.inj advanced; exact Or.inl retired)
  | list =>
      simp only [DiscoveryHost.advance] at advanced
      split at advanced
      · obtain rfl := Option.some.inj advanced
        exact Or.inl retired
      · cases advanced
  | recover =>
      simp only [DiscoveryHost.advance] at advanced
      split at advanced
      · obtain rfl := Option.some.inj advanced
        exact Or.inl retired
      · cases advanced
  | record timestamp =>
      simp only [DiscoveryHost.advance] at advanced
      split at advanced
      · obtain rfl := Option.some.inj advanced
        exact Or.inl retired
      · cases advanced

end DiscoveryHost

/-- Every retired deployment is forgotten. -/
def DiscoveryHost.Consistent (host : DiscoveryHost) : Prop :=
  ∀ deploymentId ∈ host.retired, host.Forgotten deploymentId

/-- The host as a machine. -/
def discoveryMachine : Machine DiscoveryHost DiscoveryEvent where
  advance := DiscoveryHost.advance

/-- As long as no release is served between a listing that still shows the deployment's
container and its use, a deployment that was released after its container was gone has no
active lease, until a container or a lease of it is made again. -/
theorem retired_not_leased
    (table : LeaseTable)
    (containers : List Observation)
    (host : DiscoveryHost)
    (reaches : discoveryMachine.Reaches DiscoveryHost.Settled ⟨table, containers, .idle, []⟩ host)
    (deploymentId : String)
    (retired : deploymentId ∈ host.retired) :
    ¬host.table.Leased deploymentId := by
  have consistent : host.Consistent := by
    refine reaches.invariant (by simp [DiscoveryHost.Consistent]) ?_
    intro state event next consistent settled advanced deploymentId retired
    rcases DiscoveryHost.retired_or_forgotten settled advanced retired with old | new
    · exact (consistent deploymentId old).advance advanced retired
    · exact new
  exact (consistent deploymentId retired).released

/-- A container that claims the first address of its subnet. -/
def sampleContainer : Observation where
  name := "c"
  labels := [("jiji.catalog-managed", "true"), ("jiji.deployment", "d"), ("jiji.replica", "r"),
    ("jiji.lease", "10.9.0.1"), ("jiji.lease-owned", "true")]
  running := true

/-- A host with a fresh lease table and no containers. -/
def freshHost : DiscoveryHost where
  table := .empty
  containers := []
  pass := .idle
  retired := []

/-- A deployment gets its lease and its container. -/
def started : List DiscoveryEvent :=
  [.allocate "d" "r" "10.9.0.0/29" [] 0, .create sampleContainer]

/-- A release that is served between two passes. -/
def releasedBetweenPasses : List DiscoveryEvent :=
  started ++ [.list, .recover, .record "1", .remove "c", .release "d" 2, .list, .recover,
    .record "3"]

/-- A release that is served between a listing and its use. -/
def releasedWithinPass : List DiscoveryEvent :=
  started ++ [.list, .remove "c", .release "d" 2, .recover, .record "3"]

namespace DiscoveryHost

/-- The condition on a step, decided. -/
def settled (host : DiscoveryHost) : DiscoveryEvent → Bool
  | .release deploymentId _ =>
      host.runs deploymentId ||
        match host.pass with
        | .listed observations => observations.all fun observation =>
            observation.leaseClaim.all fun claim => claim.deploymentId ≠ deploymentId
        | _ => true
  | _ => true

theorem settled_of_settled
    (host : DiscoveryHost)
    (event : DiscoveryEvent)
    (passed : host.settled event = true) :
    host.Settled event := by
  cases event with
  | release deploymentId timestamp =>
      intro absent observations listed observation member claim claims
      simp only [settled, absent, listed, Bool.false_or, List.all_eq_true] at passed
      have named := passed observation member
      rw [claims] at named
      exact of_decide_eq_true named
  | _ => trivial

/-- The retired deployments, with the state of the lease of a deployment. -/
def leaseOf (host : DiscoveryHost) (deploymentId : String) :
    List String × Option LeaseState :=
  (host.retired, (host.table.addressLease deploymentId).map AddressLease.state)

end DiscoveryHost

theorem retired_not_leased_between_passes :
    ∃ host,
      discoveryMachine.Reaches DiscoveryHost.Settled freshHost host ∧
      host.leaseOf "d" = (["d"], some .quarantined) ∧
      ¬host.table.Leased "d" := by
  have ran : ((discoveryMachine.checked DiscoveryHost.settled).run freshHost
      releasedBetweenPasses).map (fun host => host.leaseOf "d") =
        some (["d"], some .quarantined) := by
    decide
  obtain ⟨host, reached, observed⟩ := Option.map_eq_some_iff.mp ran
  have reaches := Machine.reaches_of_checked reached DiscoveryHost.settled_of_settled
  have retired : host.retired = ["d"] := congrArg Prod.fst observed
  exact ⟨host, reaches, observed,
    retired_not_leased _ _ host reaches "d" (by rw [retired]; exact List.mem_cons_self)⟩

/-- A listing that is older than a release brings the released lease back. -/
theorem released_within_pass_is_active :
    (discoveryMachine.run freshHost releasedWithinPass).map (fun host => host.leaseOf "d") =
      some (["d"], some .active) := by
  decide

end Loop

end Agent
end Jiji
