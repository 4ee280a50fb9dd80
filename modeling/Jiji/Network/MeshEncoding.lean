import Jiji.Digest.Sha2
import Jiji.Network.PlanSoundness

/-!
# What the mesh generation identifies

The mesh generation is a digest of fields that are each written after their length.  No
number of servers or peers is written, but every server has all the others as peers, so
the number of fields tells how many servers there are and where each of them begins.
-/

namespace Jiji
namespace Network

open Std (ExtTreeMap)

section Encoding

/-- The bytes of a text. -/
def textBytes (value : String) : List UInt8 := value.toByteArray.data.toList

/-- A field as it is hashed: its length in eight bytes, and its bytes. -/
def hashField (value : String) : List UInt8 :=
  Digest.bytesOf 8 value.utf8ByteSize ++ textBytes value

/-- The digests that are made with a digest of bytes. -/
def Sha256.ofDigest (digest : List UInt8 → BitVec 256) : Sha256 where
  text value := digest (textBytes value)
  fields leading values := digest (leading ++ values.flatMap hashField)

/-- The digests of the source. -/
def Sha256.standard : Sha256 := .ofDigest Digest.sha256

theorem length_textBytes (value : String) : (textBytes value).length = value.utf8ByteSize := by
  rw [← String.size_toByteArray]
  rfl

theorem textBytes_injective : Function.Injective textBytes := by
  intro left right same
  apply String.toByteArray_inj.mp
  apply ByteArray.ext
  apply Array.toList_inj.mp
  exact same

/-- A field that is followed by anything can be read back. -/
theorem hashField_append_inj
    (leftSized : left.utf8ByteSize < 2 ^ 64)
    (rightSized : right.utf8ByteSize < 2 ^ 64)
    (same : hashField left ++ leftRest = hashField right ++ rightRest) :
    left = right ∧ leftRest = rightRest := by
  rw [hashField, hashField, List.append_assoc, List.append_assoc] at same
  obtain ⟨sizes, texts⟩ := List.append_inj same
    (by rw [Digest.length_bytesOf, Digest.length_bytesOf])
  have size := Digest.eq_of_bytesOf_eq (by omega) (by omega) sizes
  obtain ⟨bytes, rests⟩ := List.append_inj texts
    (by rw [length_textBytes, length_textBytes, size])
  exact ⟨textBytes_injective bytes, rests⟩

/-- Fields that fit their lengths are determined by their encoding. -/
theorem flatMap_hashField_inj
    {left right : List String}
    (leftSized : ∀ field ∈ left, field.utf8ByteSize < 2 ^ 64)
    (rightSized : ∀ field ∈ right, field.utf8ByteSize < 2 ^ 64)
    (same : left.flatMap hashField = right.flatMap hashField) :
    left = right := by
  have inhabited : ∀ (field : String) (rest : List UInt8), hashField field ++ rest ≠ [] := by
    intro field rest empty
    have length := congrArg List.length empty
    simp [hashField, Digest.length_bytesOf] at length
  induction left generalizing right with
  | nil =>
      cases right with
      | nil => rfl
      | cons field right => exact absurd same.symm (inhabited field _)
  | cons field left inductionHypothesis =>
      cases right with
      | nil => exact absurd same (inhabited field _)
      | cons other right =>
          rw [List.forall_mem_cons] at leftSized rightSized
          obtain ⟨rfl, rests⟩ := hashField_append_inj leftSized.1 rightSized.1 same
          rw [inductionHypothesis leftSized.2 rightSized.2 rests]

/-- A number that fits is determined by its hexadecimal text. -/
theorem hexText_inj
    (leftFits : left < 16 ^ count)
    (rightFits : right < 16 ^ count)
    (same : hexText count left = hexText count right) :
    left = right := by
  have digits : ∀ first < 16, ∀ second < 16,
      Nat.digitChar first = Nat.digitChar second → first = second := by
    decide
  rw [← Nat.mod_eq_of_lt leftFits, ← Nat.mod_eq_of_lt rightFits]
  refine Digest.mod_pow_eq_of_digits fun index small => ?_
  have atIndex := List.map_inj_left.mp (String.ofList_injective same) (count - 1 - index)
    (List.mem_range.mpr (by omega))
  have position : count - 1 - (count - 1 - index) = index := by omega
  rw [position] at atIndex
  exact digits _ (Nat.mod_lt _ (by decide)) _ (Nat.mod_lt _ (by decide)) atIndex

end Encoding

section Chunks

variable {α β : Type*}

/-- Concatenations of equally many chunks of one length are equal chunk by chunk. -/
theorem map_eq_of_flatMap_eq
    {chunk : α → List β}
    {left right : List α}
    (leftSized : ∀ item ∈ left, (chunk item).length = size)
    (rightSized : ∀ item ∈ right, (chunk item).length = size)
    (equallyMany : left.length = right.length)
    (same : left.flatMap chunk = right.flatMap chunk) :
    left.map chunk = right.map chunk := by
  induction left generalizing right with
  | nil =>
      obtain rfl := List.length_eq_zero_iff.mp equallyMany.symm
      rfl
  | cons item left inductionHypothesis =>
      cases right with
      | nil => cases equallyMany
      | cons other right =>
          rw [List.forall_mem_cons] at leftSized rightSized
          obtain ⟨first, rest⟩ := List.append_inj same (leftSized.1.trans rightSized.1.symm)
          rw [List.map_cons, List.map_cons, first, inductionHypothesis leftSized.2 rightSized.2
            (Nat.succ.inj equallyMany) rest]

/-- Lists with the same images are equal if images tell their members apart. -/
theorem eq_of_map_eq
    (image : α → β)
    {left right : List α}
    (faithful : ∀ item ∈ left, ∀ other ∈ right, image item = image other → item = other)
    (same : left.map image = right.map image) :
    left = right := by
  induction left generalizing right with
  | nil => exact (List.map_eq_nil_iff.mp same.symm).symm
  | cons item left inductionHypothesis =>
      cases right with
      | nil => cases same
      | cons other right =>
          obtain ⟨first, rest⟩ := List.cons.inj same
          rw [faithful item List.mem_cons_self other List.mem_cons_self first,
            inductionHypothesis (fun next member further otherMember =>
              faithful next (List.mem_cons_of_mem _ member) further
                (List.mem_cons_of_mem _ otherMember)) rest]

end Chunks

section Mesh

/-- The fields of a server without its peers. -/
def ServerPlan.ownFields (server : ServerPlan) : List String :=
  [server.name, server.publicHost, server.managementAddress.display,
    server.containerSubnet.display, server.wireguardInterface, server.bridgeInterface,
    server.bridgeName, toString server.wireguardPort]

/-- The fields of a server with those of its peers. -/
def ServerPlan.meshFields (server : ServerPlan) : List String :=
  server.ownFields ++ server.peers.flatMap fun peer =>
    [peer.server, peer.endpoint] ++ peer.allowedIps.map Ipv4Cidr.display

/-- The fields of a plan without its servers. -/
def NetworkPlan.headerFields (plan : NetworkPlan) : List String :=
  [if plan.enabled then "enabled" else "disabled", plan.project,
    plan.managementCidr.display, plan.containerCidr.display]

theorem NetworkPlan.length_headerFields (plan : NetworkPlan) : plan.headerFields.length = 4 := rfl

theorem NetworkPlan.meshFields_eq (plan : NetworkPlan) :
    plan.meshFields = plan.headerFields ++ plan.servers.flatMap ServerPlan.meshFields := rfl

variable {sha : Sha256} {config : Config} {plan other : NetworkPlan}

/-- Every server of a plan has as many peers as there are other servers. -/
theorem NetworkPlan.Allocated.length_peers
    (allocated : plan.Allocated)
    {server : ServerPlan}
    (member : server ∈ plan.servers) :
    server.peers.length + 1 = plan.servers.length := by
  have once : (plan.servers.filter fun other => other.name = server.name).length = 1 := by
    have counted := List.count_eq_one_of_mem allocated.names (List.mem_map_of_mem member)
    rw [List.count, List.countP_map, List.countP_eq_length_filter] at counted
    exact counted
  have split := List.length_eq_length_filter_add
    (l := plan.servers) fun other => decide (other.name = server.name)
  rw [allocated.peers server member, List.length_map, split, once]
  simp [Nat.add_comm]

theorem ServerPlan.length_meshFields
    (allocated : plan.Allocated)
    {server : ServerPlan}
    (member : server ∈ plan.servers) :
    server.meshFields.length = 4 * plan.servers.length + 4 := by
  have each : ∀ peer ∈ server.peers,
      ([peer.server, peer.endpoint] ++ peer.allowedIps.map Ipv4Cidr.display).length = 4 := by
    intro peer found
    rw [allocated.peers server member] at found
    obtain ⟨planned, _, rfl⟩ := List.mem_map.mp found
    rfl
  have peers := allocated.length_peers member
  rw [meshFields, List.length_append, List.length_flatMap, List.map_congr_left each,
    List.map_const', List.sum_replicate]
  simp only [ownFields, List.length_cons, List.length_nil, smul_eq_mul]
  omega

theorem NetworkPlan.length_meshFields (allocated : plan.Allocated) :
    plan.meshFields.length = 4 + plan.servers.length * (4 * plan.servers.length + 4) := by
  have each : ∀ server ∈ plan.servers,
      server.meshFields.length = 4 * plan.servers.length + 4 :=
    fun server member => ServerPlan.length_meshFields allocated member
  rw [meshFields_eq, List.length_append, List.length_flatMap, List.map_congr_left each,
    List.map_const', List.sum_replicate]
  rfl

/-- Plans with the same fields have the same servers, up to what their fields do not say. -/
theorem ownFields_of_meshFields_eq
    (allocated : plan.Allocated)
    (otherAllocated : other.Allocated)
    (same : plan.meshFields = other.meshFields) :
    plan.servers.map ServerPlan.ownFields = other.servers.map ServerPlan.ownFields := by
  have lengths := congrArg List.length same
  rw [NetworkPlan.length_meshFields allocated, NetworkPlan.length_meshFields otherAllocated]
    at lengths
  have equallyMany : plan.servers.length = other.servers.length := by
    rcases Nat.lt_trichotomy plan.servers.length other.servers.length with fewer | equal | more
    · nlinarith
    · exact equal
    · nlinarith
  have headers : plan.headerFields.length = other.headerFields.length := by
    rw [NetworkPlan.length_headerFields, NetworkPlan.length_headerFields]
  rw [NetworkPlan.meshFields_eq, NetworkPlan.meshFields_eq] at same
  have fields := map_eq_of_flatMap_eq
    (fun server member => ServerPlan.length_meshFields allocated member)
    (fun server member => by
      rw [ServerPlan.length_meshFields otherAllocated member, equallyMany])
    equallyMany (List.append_inj same headers).2
  have own : ∀ servers : List ServerPlan, servers.map ServerPlan.ownFields =
      (servers.map ServerPlan.meshFields).map (List.take 8) := by
    intro servers
    rw [List.map_map]
    rfl
  rw [own, own, fields]

/-- A server that was planned has no peers yet and is placed. -/
theorem placed_of_mem_plannedServers
    (member : server ∈ plannedServers sha config management container assignments) :
    server.peers = [] ∧
      ∃ slot, server.Placed sha config.project management container slot := by
  obtain ⟨⟨name, publicHost⟩, _, made⟩ := List.mem_filterMap.mp member
  obtain ⟨slot, _, built⟩ := Option.bind_eq_some_iff.mp made
  refine ⟨?_, slot, (placed_of_baseServer built).2.2⟩
  simp only [baseServer, Option.bind_eq_bind, Option.bind_eq_some_iff, Option.pure_def,
    Option.some.injEq] at built
  obtain ⟨_, _, _, _, _, _, _, _, _, _, rfl⟩ := built
  rfl

/-- The fields of placed servers tell them apart. -/
theorem eq_of_ownFields_eq
    {project otherProject : String}
    {management container otherManagement otherContainer : Ipv4Cidr}
    {slot otherSlot : ℕ}
    {server next : ServerPlan}
    (placed : server.Placed sha project management container slot)
    (nextPlaced : next.Placed otherSha otherProject otherManagement otherContainer otherSlot)
    (samePeers : server.peers = next.peers)
    (same : server.ownFields = next.ownFields) :
    server = next := by
  obtain ⟨name, publicHost, managementAddress, containerSubnet, gateway, dns, proxy, port,
    wireguard, bridge, network, peers⟩ := server
  obtain ⟨nextName, nextPublicHost, nextManagementAddress, nextContainerSubnet, nextGateway,
    nextDns, nextProxy, nextPort, nextWireguard, nextBridge, nextNetwork, nextPeers⟩ := next
  simp only [ServerPlan.ownFields, List.cons.injEq, and_true] at same
  obtain ⟨rfl, rfl, address, subnet, rfl, rfl, rfl, ports⟩ := same
  obtain rfl := Ipv4Addr.display_injective address
  obtain rfl := Ipv4Cidr.display_injective subnet
  obtain rfl : port = nextPort := Nat.repr_inj.mp ports
  obtain rfl : gateway = nextGateway :=
    Option.some.inj (placed.gateway.symm.trans nextPlaced.gateway)
  obtain rfl : dns = nextDns := Option.some.inj (placed.dns.symm.trans nextPlaced.dns)
  obtain rfl : proxy = nextProxy := Option.some.inj (placed.proxy.symm.trans nextPlaced.proxy)
  obtain rfl : peers = nextPeers := samePeers
  rfl

/-- Plans with the same fields are the same. -/
theorem plan_eq_of_meshFields_eq
    {otherConfig : Config}
    (planned : NetworkPlanner.plan sha config = .ok plan)
    (otherPlanned : NetworkPlanner.plan otherSha otherConfig = .ok other)
    (same : plan.meshFields = other.meshFields) :
    plan = other := by
  have own := ownFields_of_meshFields_eq (NetworkPlanner.plan_allocated planned)
    (NetworkPlanner.plan_allocated otherPlanned) same
  obtain ⟨_, assignments, _, _, _, _, servers⟩ := NetworkPlanner.plan_eq_ok planned
  obtain ⟨_, otherAssignments, _, _, _, _, otherServers⟩ := NetworkPlanner.plan_eq_ok otherPlanned
  have bases : plannedServers sha config plan.managementCidr plan.containerCidr assignments =
      plannedServers otherSha otherConfig other.managementCidr other.containerCidr
        otherAssignments := by
    refine eq_of_map_eq ServerPlan.ownFields (fun server member next nextMember same => ?_) ?_
    · obtain ⟨noPeers, _, placed⟩ := placed_of_mem_plannedServers member
      obtain ⟨nextNoPeers, _, nextPlaced⟩ := placed_of_mem_plannedServers nextMember
      exact eq_of_ownFields_eq placed nextPlaced (noPeers.trans nextNoPeers.symm) same
    · rw [servers, otherServers, populateServerNetworks, populateServerNetworks, List.map_map,
        List.map_map] at own
      exact own
  have sameServers : plan.servers = other.servers := by
    rw [servers, otherServers, bases]
  rw [NetworkPlan.meshFields_eq, NetworkPlan.meshFields_eq] at same
  obtain ⟨header, _⟩ := List.append_inj same
    (by rw [NetworkPlan.length_headerFields, NetworkPlan.length_headerFields])
  simp only [NetworkPlan.headerFields, List.cons.injEq, and_true] at header
  obtain ⟨enabled, project, management, container⟩ := header
  have sameEnabled : plan.enabled = other.enabled := by
    cases left : plan.enabled <;> cases right : other.enabled <;> simp_all
  have sameManagement := Ipv4Cidr.display_injective management
  have sameContainer := Ipv4Cidr.display_injective container
  cases plan
  cases other
  simp_all

/-- Plans with the same mesh generation are the same unless their encodings collide. -/
theorem plan_eq_of_meshGeneration_eq
    {otherConfig : Config}
    (planned : NetworkPlanner.plan (.ofDigest digest) config = .ok plan)
    (otherPlanned : NetworkPlanner.plan (.ofDigest digest) otherConfig = .ok other)
    (sized : ∀ field ∈ plan.meshFields ++ other.meshFields, field.utf8ByteSize < 2 ^ 64)
    (collisionFree :
      digest (plan.meshFields.flatMap hashField) = digest (other.meshFields.flatMap hashField) →
        plan.meshFields.flatMap hashField = other.meshFields.flatMap hashField)
    (same : plan.meshGeneration (.ofDigest digest) = other.meshGeneration (.ofDigest digest)) :
    plan = other := by
  have digests := hexText_inj (by exact BitVec.isLt _) (by exact BitVec.isLt _) same
  have encodings := collisionFree (BitVec.eq_of_toNat_eq digests)
  have fields := flatMap_hashField_inj
    (fun field member => sized field (List.mem_append_left _ member))
    (fun field member => sized field (List.mem_append_right _ member)) encodings
  exact plan_eq_of_meshFields_eq planned otherPlanned fields

/-- Services do not change what is planned. -/
theorem plan_eq_of_services
    (planned : NetworkPlanner.plan sha config = .ok plan)
    (otherPlanned : NetworkPlanner.plan sha { config with services := services } = .ok other) :
    plan = other := by
  unfold NetworkPlanner.plan at planned otherPlanned
  obtain ⟨ranges, sameRanges, planned⟩ := Fallible.bind_eq_ok_iff.mp planned
  obtain ⟨otherRanges, otherSameRanges, otherPlanned⟩ := Fallible.bind_eq_ok_iff.mp otherPlanned
  obtain rfl : ranges = otherRanges := Except.ok.inj (sameRanges.symm.trans otherSameRanges)
  obtain ⟨slots, counted, planned⟩ := Fallible.bind_eq_ok_iff.mp planned
  obtain ⟨otherSlots, otherCounted, otherPlanned⟩ := Fallible.bind_eq_ok_iff.mp otherPlanned
  obtain rfl : slots = otherSlots := Except.ok.inj (counted.symm.trans otherCounted)
  obtain ⟨assigned, allocated, planned⟩ := Fallible.bind_eq_ok_iff.mp planned
  obtain ⟨otherAssigned, otherAllocated, otherPlanned⟩ := Fallible.bind_eq_ok_iff.mp otherPlanned
  obtain rfl : assigned = otherAssigned := Except.ok.inj (allocated.symm.trans otherAllocated)
  obtain ⟨_, _, result⟩ := Fallible.bind_eq_ok_iff.mp planned
  obtain ⟨_, _, otherResult⟩ := Fallible.bind_eq_ok_iff.mp otherPlanned
  exact Except.ok.inj (result.symm.trans otherResult)

/-- Configurations that differ in their services only have plans with the same servers and
the same mesh generation; and plans with the same mesh generation agree on everything that
concerns the mesh, provided that their encodings do not collide. -/
theorem mesh_generation_identifies_mesh
    (digest : List UInt8 → BitVec 256)
    (config otherConfig : Config)
    (plan other : NetworkPlan)
    (planned : NetworkPlanner.plan (.ofDigest digest) config = .ok plan)
    (otherPlanned : NetworkPlanner.plan (.ofDigest digest) otherConfig = .ok other)
    (sized : ∀ field ∈ plan.meshFields ++ other.meshFields, field.utf8ByteSize < 2 ^ 64)
    (collisionFree :
      digest (plan.meshFields.flatMap hashField) = digest (other.meshFields.flatMap hashField) →
        plan.meshFields.flatMap hashField = other.meshFields.flatMap hashField) :
    (otherConfig = { config with services := otherConfig.services } →
      plan.servers = other.servers ∧
        plan.meshGeneration (.ofDigest digest) = other.meshGeneration (.ofDigest digest)) ∧
    (plan.meshGeneration (.ofDigest digest) = other.meshGeneration (.ofDigest digest) →
      plan.enabled = other.enabled ∧ plan.project = other.project ∧
        plan.managementCidr = other.managementCidr ∧ plan.containerCidr = other.containerCidr ∧
        plan.servers = other.servers) := by
  constructor
  · intro onlyServices
    rw [onlyServices] at otherPlanned
    obtain rfl := plan_eq_of_services planned otherPlanned
    exact ⟨rfl, rfl⟩
  · intro sameGeneration
    obtain rfl := plan_eq_of_meshGeneration_eq planned otherPlanned sized collisionFree
      sameGeneration
    exact ⟨rfl, rfl, rfl, rfl, rfl⟩

/-- The sample project with a service on one of its servers. -/
def sampleServiceConfig : Config :=
  { sampleConfig with services := {("web", ["a"])} }

/-- The service changes neither the servers nor the mesh generation. -/
theorem mesh_generation_identifies_mesh_service :
    ∃ plan other, NetworkPlanner.plan .standard sampleConfig = .ok plan ∧
      NetworkPlanner.plan .standard sampleServiceConfig = .ok other ∧
      plan.meshGeneration .standard = other.meshGeneration .standard ∧
      plan.servers = other.servers := by
  have outcome : (NetworkPlanner.plan .standard sampleConfig).toOption.map (fun plan =>
      plan.meshFields.all fun field => decide (field.utf8ByteSize < 2 ^ 64)) = some true := by
    decide +kernel
  have otherOutcome : (NetworkPlanner.plan .standard sampleServiceConfig).isOk = true := by
    decide +kernel
  cases planned : NetworkPlanner.plan .standard sampleConfig with
  | error problem =>
      rw [planned] at outcome
      cases outcome
  | ok plan =>
      rw [planned] at outcome
      cases otherPlanned : NetworkPlanner.plan .standard sampleServiceConfig with
      | error problem =>
          rw [otherPlanned] at otherOutcome
          cases otherOutcome
      | ok other =>
          obtain rfl : plan = other := plan_eq_of_services planned otherPlanned
          have small : ∀ field ∈ plan.meshFields, field.utf8ByteSize < 2 ^ 64 := by
            have all := Option.some.inj outcome
            rw [List.all_eq_true] at all
            exact fun field member => of_decide_eq_true (all field member)
          have sized : ∀ field ∈ plan.meshFields ++ plan.meshFields,
              field.utf8ByteSize < 2 ^ 64 :=
            fun field member => small field ((List.mem_append.mp member).elim id id)
          obtain ⟨unchanged, _⟩ := mesh_generation_identifies_mesh Digest.sha256 sampleConfig
            sampleServiceConfig plan plan planned otherPlanned sized fun _ => rfl
          obtain ⟨servers, generation⟩ := unchanged rfl
          exact ⟨plan, plan, rfl, rfl, generation, servers⟩

end Mesh

end Network
end Jiji
