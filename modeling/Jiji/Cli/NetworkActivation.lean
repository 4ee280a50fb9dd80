import Jiji.Cli.NetworkRollback

/-!
# What an activation leaves on the interface

The activation script loads the peers of a generation and makes the routes those of the
plan, whatever there was before.  The management address is only added: an address that
the interface had under an earlier plan stays.
-/

namespace Jiji
namespace Cli

open Std Network

/-- The interface is the one that a server was planned to have. -/
structure InstalledNetwork.Activated
    (network : InstalledNetwork)
    (server : Network.ServerPlan)
    (publicKeys : ExtTreeMap String String) : Prop where
  addresses : ∀ address, address ∈ network.mesh.addresses ↔
    address = hostAddress server.managementAddress
  peers : ∀ key, key ∈ network.mesh.peers ↔
    ∃ peer ∈ server.peers, publicKeys[peer.server]? = some key
  allowed : ∀ peer ∈ server.peers, ∀ key, publicKeys[peer.server]? = some key →
    ∀ destination, network.mesh.owner destination = some key ↔ destination ∈ peer.allowedIps
  routes : ∀ route, route ∈ network.mesh.routes ↔
    ∃ peer ∈ server.peers, route ∈ peer.allowedIps

/-- No two peers of a server have the same key. -/
def DistinctKeys (server : Network.ServerPlan) (publicKeys : ExtTreeMap String String) : Prop :=
  ∀ peer ∈ server.peers, ∀ other ∈ server.peers,
    publicKeys[peer.server]? = publicKeys[other.server]? → peer.server = other.server

section Script

variable {network final : InstalledNetwork} {server : Network.ServerPlan}
variable {mesh generation : String}

/-- An activation loads the peers of its generation and makes the routes those of the plan. -/
theorem InstalledNetwork.execute_activation
    (ran : network.execute (renderActivationCommand server mesh generation true) = some final) :
    ∃ configuration, (network.generations generation).wireguardConf = some configuration ∧
      final.mesh.SamePeers (network.mesh.syncPeers configuration) ∧
      ∀ route, route ∈ final.mesh.routes ↔
        route ∈ server.peers.flatMap WireGuardPeerPlan.allowedIps := by
  obtain ⟨synced, beforeLast, last⟩ := execute_append_eq_some.mp ran
  obtain ⟨loaded, start, routes⟩ := execute_append_eq_some.mp beforeLast
  obtain rfl : synced = final := Option.some.inj last
  obtain ⟨samePeers, sameRoutes⟩ := execute_routeSync routes
  obtain ⟨linked, linking, loading⟩ := execute_append_eq_some.mp
    (show network.execute (([.elsewhere, .elsewhere, .requireConf generation,
      .requireMeshGeneration generation mesh, .linkCurrent generation, .elsewhere,
      .elsewhere, .linkMesh, .addInterface, .setPrivateKey,
      .replaceAddress (hostAddress server.managementAddress), .linkUp] : List MeshCommand) ++
      [.syncPeers]) = some loaded from start)
  obtain ⟨files, current⟩ := execute_files linking
  have loads : linked.perform .syncPeers = some loaded := by
    simpa [execute] using loading
  obtain ⟨installed, currently, loads⟩ := Option.bind_eq_some_iff.mp loads
  obtain ⟨configuration, stands, loads⟩ := Option.bind_eq_some_iff.mp loads
  obtain ⟨interface, changed, present, changes, rfl⟩ := configure_eq_some_iff.mp loads
  obtain rfl := Option.some.inj changes
  obtain rfl : generation = installed := by
    rw [currently] at current
    simpa [MeshCommand.installs] using current.symm
  refine ⟨configuration, files ▸ stands, ?_, sameRoutes⟩
  exact samePeers.trans (Interface.syncPeers_samePeers interface network.mesh configuration)

/-- An activation adds one address. -/
theorem InstalledNetwork.activation_addresses
    (ran : network.execute (renderActivationCommand server mesh generation true) = some final)
    (address : InterfaceAddress) :
    address ∈ final.mesh.addresses ↔
      address ∈ network.mesh.addresses ∨ address = hostAddress server.managementAddress := by
  rw [execute_addresses ran (by simp [renderActivationCommand, renderRouteSync])]
  simp [renderActivationCommand, renderRouteSync]

end Script

section Peers

variable {plan : NetworkPlan} {server : Network.ServerPlan}
variable {publicKeys : ExtTreeMap String String}

/-- A peer of a configuration is a planned peer whose key is known. -/
theorem mem_renderWireguard
    {entry : String × List Ipv4Cidr} :
    entry ∈ renderWireguard server publicKeys ↔
      ∃ peer ∈ server.peers, publicKeys[peer.server]? = some entry.1 ∧
        peer.allowedIps = entry.2 := by
  simp only [renderWireguard, List.mem_filterMap, Option.map_eq_some_iff]
  constructor
  · rintro ⟨peer, member, key, known, rfl⟩
    exact ⟨peer, member, known, rfl⟩
  · rintro ⟨peer, member, known, same⟩
    exact ⟨peer, member, entry.1, known, same ▸ rfl⟩

/-- The peers of a planned server are different servers that share no destination. -/
theorem peers_apart
    (allocated : plan.Allocated)
    (member : server ∈ plan.servers) :
    server.peers.Pairwise fun peer other => peer.server ≠ other.server ∧
      peer ∈ server.peers ∧ other ∈ server.peers ∧
      ∀ destination ∈ other.allowedIps, destination ∉ peer.allowedIps := by
  have distinct : server.peers.Pairwise fun peer other => peer.server ≠ other.server ∧
      ∀ destination ∈ other.allowedIps, destination ∉ peer.allowedIps := by
    rw [allocated.peers server member]
    refine List.pairwise_map.mpr ((List.Pairwise.imp_of_mem ?_
      (List.pairwise_map.mp allocated.names)).filter _)
    intro first second firstMember secondMember different
    exact ⟨different, destinations_apart allocated firstMember secondMember different⟩
  exact distinct.imp_of_mem fun peerMember otherMember apart =>
    ⟨apart.1, peerMember, otherMember, apart.2⟩

/-- Two peers of a planned server that have the same destinations are the same server. -/
theorem peer_server_eq
    (allocated : plan.Allocated)
    (member : server ∈ plan.servers)
    {peer other : WireGuardPeerPlan}
    (peerMember : peer ∈ server.peers)
    (otherMember : other ∈ server.peers)
    (same : ∀ destination, destination ∈ peer.allowedIps ↔ destination ∈ other.allowedIps) :
    peer.server = other.server := by
  rw [allocated.peers server member] at peerMember otherMember
  obtain ⟨first, firstMember, rfl⟩ := List.mem_map.mp peerMember
  obtain ⟨second, secondMember, rfl⟩ := List.mem_map.mp otherMember
  by_contra different
  have shared : hostRoute second.managementAddress ∈ second.peerPlan.allowedIps :=
    List.mem_cons_self
  exact destinations_apart allocated (List.mem_of_mem_filter firstMember)
    (List.mem_of_mem_filter secondMember) different _ shared ((same _).mpr shared)

/-- If no two peers have the same key, a loaded configuration gives each its destinations. -/
theorem syncPeers_renderWireguard
    (allocated : plan.Allocated)
    (member : server ∈ plan.servers)
    (distinct : DistinctKeys server publicKeys)
    (interface : MeshInterface) :
    ∀ entry ∈ renderWireguard server publicKeys,
      (interface.syncPeers (renderWireguard server publicKeys)).Allows entry.1 entry.2 := by
  have apart := peers_apart allocated member
  refine Interface.setPeers_allows ?_ ?_ _
  · refine List.pairwise_map.mpr (List.Pairwise.filterMap _ ?_ apart)
    rintro peer other ⟨different, peerMember, otherMember, _⟩ entry found otherEntry otherFound same
    obtain ⟨key, known, rfl⟩ := Option.map_eq_some_iff.mp found
    obtain ⟨otherKey, otherKnown, rfl⟩ := Option.map_eq_some_iff.mp otherFound
    obtain rfl : key = otherKey := same
    exact different (distinct peer peerMember other otherMember (known.trans otherKnown.symm))
  · refine List.Pairwise.filterMap _ ?_ apart
    rintro peer other ⟨_, _, _, disjoint⟩ entry found otherEntry otherFound
    obtain ⟨key, _, rfl⟩ := Option.map_eq_some_iff.mp found
    obtain ⟨otherKey, _, rfl⟩ := Option.map_eq_some_iff.mp otherFound
    exact disjoint

/-- The peers after a configuration was loaded are those of it. -/
theorem mem_syncPeers_renderWireguard
    {interface : MeshInterface}
    {key : String} :
    key ∈ (interface.syncPeers (renderWireguard server publicKeys)).peers ↔
      ∃ peer ∈ server.peers, publicKeys[peer.server]? = some key := by
  refine Interface.mem_setPeers_peers.trans ?_
  simp only [List.not_mem_nil, false_or, List.mem_map, mem_renderWireguard]
  constructor
  · rintro ⟨entry, ⟨peer, member, known, _⟩, rfl⟩
    exact ⟨peer, member, known⟩
  · rintro ⟨peer, member, known⟩
    exact ⟨(key, peer.allowedIps), ⟨peer, member, known, rfl⟩, rfl⟩

end Peers

/-- After the activation script of a planned server has succeeded, the interface is the
planned one exactly if it had no other address before and no two peers have the same key. -/
theorem activation_yields_plan_iff
    {sha : Sha256}
    {config : Config}
    {plan : NetworkPlan}
    {server : Network.ServerPlan}
    {publicKeys : ExtTreeMap String String}
    {generation : String}
    {network final : InstalledNetwork}
    (planned : NetworkPlanner.plan sha config = .ok plan)
    (member : server ∈ plan.servers)
    (known : ∀ peer ∈ server.peers, publicKeys[peer.server]?.isSome)
    (staged : (network.generations generation).wireguardConf =
      some (renderWireguard server publicKeys))
    (ran : network.execute (renderActivationCommand server (plan.meshGeneration sha) generation
      true) = some final) :
    final.Activated server publicKeys ↔
      (∀ address ∈ network.mesh.addresses, address = hostAddress server.managementAddress) ∧
        DistinctKeys server publicKeys := by
  have allocated := NetworkPlanner.plan_allocated planned
  obtain ⟨configuration, stands, samePeers, sameRoutes⟩ :=
    InstalledNetwork.execute_activation ran
  obtain rfl := Option.some.inj (staged.symm.trans stands)
  have addresses := InstalledNetwork.activation_addresses ran
  constructor
  · intro activated
    refine ⟨fun address held => ?_, fun peer peerMember other otherMember same => ?_⟩
    · exact (activated.addresses address).mp ((addresses address).mpr (Or.inl held))
    · obtain ⟨key, found⟩ := Option.isSome_iff_exists.mp (known peer peerMember)
      refine peer_server_eq allocated member peerMember otherMember fun destination => ?_
      exact (activated.allowed peer peerMember key found destination).symm.trans
        (activated.allowed other otherMember key (same ▸ found) destination)
  · rintro ⟨clean, distinct⟩
    refine ⟨fun address => ?_, fun key => ?_, ?_, fun route => ?_⟩
    · rw [addresses]
      exact or_iff_right_of_imp (clean address)
    · exact (samePeers.1 key).trans mem_syncPeers_renderWireguard
    · intro peer peerMember key found
      have entry : (key, peer.allowedIps) ∈ renderWireguard server publicKeys :=
        mem_renderWireguard.mpr ⟨peer, peerMember, found, rfl⟩
      exact (samePeers.symm.allows
        (syncPeers_renderWireguard allocated member distinct network.mesh _ entry)).allowed
    · rw [sameRoutes, List.mem_flatMap]

section Sample

/-- The first server of the sample plan with a staged generation, on an interface that has
some addresses. -/
def sampleStaged (addresses : List InterfaceAddress) : InstalledNetwork where
  generations := Function.update (fun _ => ⟨none, none, none⟩) "new"
    ⟨some (renderWireguard sampleServerA sampleNetworkRun.publicKeys), none,
      some (sampleNetworkPlan.meshGeneration sampleSha ++ "\n")⟩
  current := none
  meshLink := false
  interface := some { (Interface.blank : MeshInterface) with addresses := addresses }

theorem sampleServerA_mem : sampleServerA ∈ sampleNetworkPlan.servers := by
  rw [sampleNetworkPlan_servers]
  exact List.mem_cons_self

/-- The first activation of a server yields the planned interface. -/
theorem activation_yields_plan_iff_first :
    ∃ final, (sampleStaged []).execute (renderActivationCommand sampleServerA
        (sampleNetworkPlan.meshGeneration sampleSha) "new" true) = some final ∧
      final.Activated sampleServerA sampleNetworkRun.publicKeys := by
  have succeeds : ((sampleStaged []).execute (renderActivationCommand sampleServerA
      (sampleNetworkPlan.meshGeneration sampleSha) "new" true)).isSome = true := by
    decide +kernel
  obtain ⟨final, ran⟩ := Option.isSome_iff_exists.mp succeeds
  refine ⟨final, ran, (activation_yields_plan_iff sampleNetworkPlan_planned sampleServerA_mem
    (by decide +kernel) (by simp [sampleStaged]) ran).mpr ⟨by simp [sampleStaged,
      InstalledNetwork.mesh], ?_⟩⟩
  intro peer peerMember other otherMember _
  rw [List.mem_singleton.mp peerMember, List.mem_singleton.mp otherMember]

/-- A server whose management address has changed keeps the old one. -/
theorem activation_keeps_old_address :
    ∃ final, (sampleStaged [hostAddress (Ipv4Addr.ofOctets 10 0 0 9)]).execute
        (renderActivationCommand sampleServerA (sampleNetworkPlan.meshGeneration sampleSha) "new"
          true) = some final ∧
      hostAddress (Ipv4Addr.ofOctets 10 0 0 9) ∈ final.mesh.addresses ∧
      ¬ final.Activated sampleServerA sampleNetworkRun.publicKeys := by
  have kept : ((sampleStaged [hostAddress (Ipv4Addr.ofOctets 10 0 0 9)]).execute
      (renderActivationCommand sampleServerA (sampleNetworkPlan.meshGeneration sampleSha) "new"
        true)).map (fun final => decide (hostAddress (Ipv4Addr.ofOctets 10 0 0 9) ∈
          final.mesh.addresses)) = some true := by
    decide +kernel
  obtain ⟨final, ran, held⟩ := Option.map_eq_some_iff.mp kept
  have held := of_decide_eq_true held
  refine ⟨final, ran, held, fun activated => ?_⟩
  exact absurd ((activated.addresses _).mp held) (by decide)

end Sample

end Cli
end Jiji
