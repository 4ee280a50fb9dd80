import Jiji.Cli.NetworkSetup
import Jiji.Network.Allocation

/-!
# The scripts of a network setup

A run of network setup activates its targets by a script of commands.  This module says what
those commands do to the addresses and the routes of an installed network, and that the
servers of a plan have no destination in common.
-/

namespace Jiji
namespace Cli

open Std Network

/-- A run of network setup on connected hosts: the targets, and the host that they are
made known to. -/
structure NetworkRun where
  plan : NetworkPlan
  targets : List Network.ServerPlan
  seed : Option Network.ServerPlan
  publicKeys : ExtTreeMap String String

section Commands

theorem InstalledNetwork.mesh_eq
    {network : InstalledNetwork}
    {interface : MeshInterface}
    (present : network.interface = some interface) :
    network.mesh = interface := by
  simp [mesh, present]

/-- Deleting routes leaves everything else alone. -/
theorem deleteRoutes_spec (interface : MeshInterface) (routes : List Ipv4Cidr) :
    (deleteRoutes interface routes).peers = interface.peers ∧
      (deleteRoutes interface routes).owner = interface.owner ∧
      (deleteRoutes interface routes).addresses = interface.addresses ∧
      ∀ route, route ∈ (deleteRoutes interface routes).routes ↔
        route ∈ interface.routes ∧ route ∉ routes := by
  induction routes generalizing interface with
  | nil => simp [deleteRoutes]
  | cons first routes inductionHypothesis =>
      obtain ⟨peers, owner, addresses, remaining⟩ :=
        inductionHypothesis (interface.deleteRoute first)
      refine ⟨peers, owner, addresses, fun route => ?_⟩
      rw [show deleteRoutes interface (first :: routes) =
        deleteRoutes (interface.deleteRoute first) routes from rfl, remaining]
      simp only [Interface.deleteRoute, List.mem_filter, decide_eq_true_eq, List.mem_cons, not_or]
      tauto

/-- The addresses of the interface after a command. -/
theorem InstalledNetwork.perform_addresses
    {network next : InstalledNetwork}
    (ran : network.perform command = some next)
    (keeps : command ≠ .deleteInterface)
    (address : InterfaceAddress) :
    address ∈ next.mesh.addresses ↔
      address ∈ network.mesh.addresses ∨ command = .replaceAddress address := by
  have configured : ∀ {change}, network.configure change = some next →
      (∀ interface changed, change interface = some changed →
        changed.addresses = interface.addresses) →
      next.mesh.addresses = network.mesh.addresses := by
    intro change succeeds kept
    obtain ⟨interface, changed, present, changes, rfl⟩ := configure_eq_some_iff.mp succeeds
    rw [mesh_eq present, mesh_eq rfl, kept _ _ changes]
  have same : next.mesh.addresses = network.mesh.addresses →
      (∀ other, command ≠ .replaceAddress other) →
      (address ∈ next.mesh.addresses ↔
        address ∈ network.mesh.addresses ∨ command = .replaceAddress address) := by
    intro equal different
    simp [equal, different address]
  cases command with
  | elsewhere | linkCurrent | linkMesh | addInterface | unlink =>
      obtain rfl := Option.some.inj ran
      exact same rfl nofun
  | deleteInterface => exact absurd rfl keeps
  | requireConf | requireMeshGeneration =>
      obtain ⟨_, equal⟩ := Option.ite_none_right_eq_some.mp ran
      obtain rfl := Option.some.inj equal
      exact same rfl nofun
  | setPrivateKey =>
      refine same (configured ran ?_) nofun
      intro interface changed succeeds
      rw [Option.some.inj succeeds]
  | linkUp =>
      refine same (configured ran ?_) nofun
      intro interface changed succeeds
      rw [← Option.some.inj succeeds]
  | replaceAddress replaced =>
      obtain ⟨interface, changed, present, succeeds, rfl⟩ := configure_eq_some_iff.mp ran
      obtain rfl := Option.some.inj succeeds
      rw [mesh_eq present, mesh_eq rfl]
      simp only [Interface.replaceAddress, List.mem_insert_iff, MeshCommand.replaceAddress.injEq]
      rw [or_comm, eq_comm]
  | deleteStaleRoutes =>
      refine same (configured ran ?_) nofun
      intro interface changed succeeds
      rw [← Option.some.inj succeeds]
      exact (deleteRoutes_spec _ _).2.2.1
  | replaceRoute =>
      refine same (configured ran ?_) nofun
      intro interface changed succeeds
      obtain ⟨_, equal⟩ := Option.ite_none_right_eq_some.mp succeeds
      rw [← Option.some.inj equal]
      rfl
  | syncPeers =>
      obtain ⟨_, _, remaining⟩ := Option.bind_eq_some_iff.mp ran
      obtain ⟨_, _, succeeds⟩ := Option.bind_eq_some_iff.mp remaining
      refine same (configured succeeds ?_) nofun
      intro interface changed succeeds
      rw [← Option.some.inj succeeds]
      exact Interface.syncPeers_addresses _ _

theorem InstalledNetwork.execute_addresses
    {network final : InstalledNetwork}
    (ran : network.execute script = some final)
    (keeps : MeshCommand.deleteInterface ∉ script)
    (address : InterfaceAddress) :
    address ∈ final.mesh.addresses ↔
      address ∈ network.mesh.addresses ∨ MeshCommand.replaceAddress address ∈ script := by
  induction script generalizing network with
  | nil =>
      obtain rfl : network = final := by simpa [execute] using ran
      simp
  | cons command script inductionHypothesis =>
      obtain ⟨next, first, rest⟩ := Option.bind_eq_some_iff.mp ran
      simp only [List.mem_cons, not_or] at keeps
      rw [inductionHypothesis rest keeps.2,
        perform_addresses first (fun same => keeps.1 same.symm), List.mem_cons, or_assoc,
        eq_comm (a := command)]

/-- Two scripts in a row. -/
theorem InstalledNetwork.execute_append_eq_some
    {network final : InstalledNetwork}
    {first second : List MeshCommand} :
    network.execute (first ++ second) = some final ↔
      ∃ middle, network.execute first = some middle ∧ middle.execute second = some final := by
  rw [execute, List.foldlM_append]
  exact Option.bind_eq_some_iff

/-- Replacing routes adds them. -/
theorem InstalledNetwork.execute_replaceRoutes
    {network final : InstalledNetwork}
    {routes : List Ipv4Cidr}
    (ran : network.execute (routes.map .replaceRoute) = some final) :
    final.mesh.SamePeers network.mesh ∧
      ∀ route, route ∈ final.mesh.routes ↔ route ∈ network.mesh.routes ∨ route ∈ routes := by
  induction routes generalizing network with
  | nil =>
      obtain rfl : network = final := by simpa [execute] using ran
      exact ⟨⟨fun _ => Iff.rfl, rfl⟩, by simp⟩
  | cons route routes inductionHypothesis =>
      obtain ⟨next, first, rest⟩ := Option.bind_eq_some_iff.mp ran
      obtain ⟨peers, remaining⟩ := inductionHypothesis rest
      obtain ⟨interface, changed, present, changes, rfl⟩ := configure_eq_some_iff.mp first
      obtain ⟨_, equal⟩ := Option.ite_none_right_eq_some.mp changes
      obtain rfl := Option.some.inj equal
      have added : ∀ other, other ∈ final.mesh.routes ↔
          other ∈ (interface.replaceRoute route).routes ∨ other ∈ routes := remaining
      rw [mesh_eq present]
      refine ⟨peers, fun other => ?_⟩
      simp only [added, Interface.replaceRoute, List.mem_insert_iff, List.mem_cons]
      tauto

/-- Synchronising routes makes them those of the plan and leaves the peers alone. -/
theorem InstalledNetwork.execute_routeSync
    {network final : InstalledNetwork}
    {server : Network.ServerPlan}
    (ran : network.execute (renderRouteSync server) = some final) :
    final.mesh.SamePeers network.mesh ∧
      ∀ route, route ∈ final.mesh.routes ↔
        route ∈ server.peers.flatMap WireGuardPeerPlan.allowedIps := by
  obtain ⟨next, deleted, replaced⟩ := Option.bind_eq_some_iff.mp ran
  obtain ⟨peers, routes⟩ := execute_replaceRoutes replaced
  obtain ⟨interface, changed, present, changes, rfl⟩ := configure_eq_some_iff.mp deleted
  obtain rfl := Option.some.inj changes
  simp only [Option.getD_none, List.take_length] at peers routes
  set expected := server.peers.flatMap WireGuardPeerPlan.allowedIps
  obtain ⟨samePeers, sameOwner, _, remaining⟩ :=
    deleteRoutes_spec interface (interface.routes.filter (· ∉ expected))
  have added : ∀ route, route ∈ final.mesh.routes ↔
      route ∈ (deleteRoutes interface (interface.routes.filter (· ∉ expected))).routes ∨
        route ∈ expected := routes
  rw [mesh_eq present]
  refine ⟨⟨fun key => (peers.1 key).trans (samePeers ▸ Iff.rfl), peers.2.trans sameOwner⟩,
    fun route => ?_⟩
  rw [added, remaining]
  simp only [List.mem_filter, decide_eq_true_eq, not_and, not_not]
  tauto

end Commands

section Seed

variable {sha : Sha256} {run : NetworkRun} {seed : Network.ServerPlan}

/-- Two servers of a plan have no destination in common. -/
theorem destinations_apart
    {plan : NetworkPlan}
    (allocated : plan.Allocated)
    (member : server ∈ plan.servers)
    (otherMember : other ∈ plan.servers)
    (different : server.name ≠ other.name) :
    ∀ destination ∈ [hostRoute other.managementAddress, other.containerSubnet],
      destination ∉ [hostRoute server.managementAddress, server.containerSubnet] := by
  have lengths : ∀ address, ∀ somewhere ∈ plan.servers,
      hostRoute address ≠ somewhere.containerSubnet := by
    intro address somewhere somewhereMember same
    have prefixes := congrArg Ipv4Cidr.prefixLength same
    rw [allocated.prefixes somewhere somewhereMember] at prefixes
    exact absurd prefixes (by simp [hostRoute, containerServerPrefix])
  intro destination found alsoFound
  simp only [List.mem_cons, List.not_mem_nil, or_false] at found alsoFound
  obtain rfl | rfl := found
  · obtain same | same := alsoFound
    · exact different (allocated.addresses _ member _ otherMember
        (congrArg Ipv4Cidr.network same).symm)
    · exact lengths _ _ member same
  · obtain same | same := alsoFound
    · exact lengths _ _ otherMember same.symm
    · exact different (allocated.subnets _ member _ otherMember same.symm)

end Seed

section Sample

/-- The plan of the sample project. -/
def sampleNetworkPlan : NetworkPlan :=
  (NetworkPlanner.plan sampleSha sampleConfig).toOption.getD
    ⟨true, "p", hostRoute 0, hostRoute 0, []⟩

theorem sampleNetworkPlan_planned :
    NetworkPlanner.plan sampleSha sampleConfig = .ok sampleNetworkPlan := by
  decide +kernel

/-- A run on the first server of the sample project, with the second one as its seed. -/
def sampleNetworkRun : NetworkRun where
  plan := sampleNetworkPlan
  targets := sampleNetworkPlan.servers.take 1
  seed := sampleNetworkPlan.servers[1]?
  publicKeys := ((∅ : ExtTreeMap String String).insert "a" "ka").insert "b" "kb"

/-- A server of the sample plan by the number of its slot. -/
def samplePlannedServer (name publicHost : String) (slot : Fin 2)
    (peers : List WireGuardPeerPlan) : Network.ServerPlan where
  name := name
  publicHost := publicHost
  managementAddress := Ipv4Addr.ofOctets 10 0 0 (slot + 1)
  containerSubnet := {
    network := Ipv4Addr.ofOctets 10 1 (8 * slot) 0
    prefixLength := 21
    prefixLength_le := by decide
    canonical := by
      revert slot
      decide }
  bridgeGateway := Ipv4Addr.ofOctets 10 1 (8 * slot) 1
  dnsAddress := Ipv4Addr.ofOctets 10 1 (8 * slot) 2
  proxyAddress := Ipv4Addr.ofOctets 10 1 (8 * slot) 3
  wireguardPort := 51820
  wireguardInterface := "jiji00000000"
  bridgeInterface := "jijib0000000"
  bridgeName := "jiji-p-00000000"
  peers := peers

def sampleServerA : Network.ServerPlan :=
  samplePlannedServer "a" "192.0.2.1" 0 [(samplePlannedServer "b" "192.0.2.2" 1 []).peerPlan]

def sampleServerB : Network.ServerPlan :=
  samplePlannedServer "b" "192.0.2.2" 1 [(samplePlannedServer "a" "192.0.2.1" 0 []).peerPlan]

theorem sampleNetworkPlan_servers :
    sampleNetworkPlan.servers = [sampleServerA, sampleServerB] := by
  decide +kernel

end Sample

end Cli
end Jiji
