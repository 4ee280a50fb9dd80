import Jiji.Network.Planner

/-!
# Slots and addresses

The servers of a plan have different slots, and so different management addresses and
different container subnets.
-/

namespace Jiji
namespace Network

open Std Replication

namespace Ipv4Cidr

variable {cidr : Ipv4Cidr}

/-- Different offsets in a network are different addresses. -/
theorem address_injective
    {address : Ipv4Addr}
    (atFirst : cidr.address first = some address)
    (atSecond : cidr.address second = some address) :
    first = second := by
  simp only [Ipv4Cidr.address, Option.ite_none_left_eq_some, Option.some.injEq] at atFirst atSecond
  obtain ⟨firstSmall, firstEq⟩ := atFirst
  obtain ⟨secondSmall, secondEq⟩ := atSecond
  have bound : cidr.addressCount ≤ 2 ^ 32 :=
    Nat.pow_le_pow_right (by decide) (Nat.sub_le 32 _)
  have numbers := congrArg BitVec.toNat (firstEq.trans secondEq.symm)
  have networkBound := cidr.network.isLt
  simp only [BitVec.toNat_add, BitVec.toNat_ofNat] at numbers
  omega

/-- A subnet starts at a multiple of its size. -/
theorem network_of_subnet
    {subnet : Ipv4Cidr}
    (found : cidr.subnet newPrefix index = some subnet) :
    cidr.address (index * 2 ^ (32 - newPrefix)) = some subnet.network ∧
      subnet.prefixLength = newPrefix := by
  simp only [Ipv4Cidr.subnet, Option.bind_eq_bind, Option.bind_eq_some_iff] at found
  obtain ⟨count, _, found⟩ := found
  obtain ⟨_, found⟩ := Option.ite_none_left_eq_some.mp found
  obtain ⟨start, starts, built⟩ := Option.bind_eq_some_iff.mp found
  unfold Ipv4Cidr.new at built
  split at built
  · split at built
    · obtain rfl := Option.some.inj built
      exact ⟨starts, rfl⟩
    · cases built
  · cases built

/-- Different indices are different subnets. -/
theorem subnet_injective
    {subnet : Ipv4Cidr}
    (atFirst : cidr.subnet newPrefix first = some subnet)
    (atSecond : cidr.subnet newPrefix second = some subnet) :
    first = second := by
  have same := address_injective (network_of_subnet atFirst).1 (network_of_subnet atSecond).1
  exact Nat.eq_of_mul_eq_mul_right (Nat.two_pow_pos _) same

end Ipv4Cidr

variable {sha : Sha256}

theorem mem_bucketMembers
    {identity : String} :
    identity ∈ bucketMembers sha identities bucketCount bucket ↔
      identity ∈ identities ∧ stableHash sha identity % bucketCount = bucket := by
  simp [bucketMembers, (List.perm_insertionSort _ _).mem_iff]

/-- The hash bucket of an identity among those that the slots are divided into. -/
def bucketOf (sha : Sha256) (totalSlots desiredCapacity : ℕ) (identity : String) : ℕ :=
  stableHash sha identity % (totalSlots / min desiredCapacity totalSlots)

/-- The place of an identity among those of its bucket. -/
def bucketPlace
    (sha : Sha256)
    (identities : List String)
    (totalSlots desiredCapacity : ℕ)
    (identity : String) : ℕ :=
  (bucketMembers sha identities (totalSlots / min desiredCapacity totalSlots)
    (bucketOf sha totalSlots desiredCapacity identity)).idxOf identity

/-- A successful allocation: the slots, and the room for them in the buckets. -/
theorem allocateBucketed_eq_ok
    (allocated : allocateBucketed sha identities totalSlots desiredCapacity kind =
      .ok assignments) :
    (assignments = identities.map fun identity => (identity,
        bucketOf sha totalSlots desiredCapacity identity * min desiredCapacity totalSlots +
          bucketPlace sha identities totalSlots desiredCapacity identity)) ∧
      ∀ identity ∈ identities,
        bucketPlace sha identities totalSlots desiredCapacity identity <
          min desiredCapacity totalSlots := by
  simp only [allocateBucketed] at allocated
  split at allocated
  · cases allocated
  · rename_i fits
    refine ⟨(Except.ok.inj allocated).symm, fun identity member => ?_⟩
    have inBucket := List.idxOf_lt_length_of_mem (mem_bucketMembers.mpr ⟨member, rfl⟩ :
      identity ∈ bucketMembers sha identities (totalSlots / min desiredCapacity totalSlots)
        (bucketOf sha totalSlots desiredCapacity identity))
    have small := List.find?_eq_none.mp fits (bucketOf sha totalSlots desiredCapacity identity)
      ((List.perm_insertionSort _ _).mem_iff.mpr (List.mem_map_of_mem member))
    simp only [decide_eq_true_eq, Nat.not_lt] at small
    exact inBucket.trans_le small

/-- Different identities get different slots. -/
theorem allocateBucketed_injective
    (allocated : allocateBucketed sha identities totalSlots desiredCapacity kind =
      .ok assignments)
    {first second : String}
    {slot : ℕ}
    (atFirst : (first, slot) ∈ assignments)
    (atSecond : (second, slot) ∈ assignments) :
    first = second := by
  obtain ⟨rfl, room⟩ := allocateBucketed_eq_ok allocated
  obtain ⟨_, firstMember, firstEq⟩ := List.mem_map.mp atFirst
  obtain ⟨rfl, firstSlot⟩ := Prod.mk.inj firstEq
  obtain ⟨_, secondMember, secondEq⟩ := List.mem_map.mp atSecond
  obtain ⟨rfl, secondSlot⟩ := Prod.mk.inj secondEq
  set capacity := min desiredCapacity totalSlots
  have split : ∀ bucket place, place < capacity →
      (bucket * capacity + place) / capacity = bucket ∧
        (bucket * capacity + place) % capacity = place := by
    intro bucket place small
    rw [Nat.mul_comm, Nat.mul_add_div (Nat.zero_lt_of_lt small), Nat.div_eq_of_lt small,
      Nat.mul_add_mod, Nat.mod_eq_of_lt small]
    exact ⟨rfl, rfl⟩
  obtain ⟨firstBucket, firstPlace⟩ := split _ _ (room _ firstMember)
  obtain ⟨secondBucket, secondPlace⟩ := split _ _ (room _ secondMember)
  rw [firstSlot] at firstBucket firstPlace
  rw [secondSlot] at secondBucket secondPlace
  have sameBucket := firstBucket.symm.trans secondBucket
  have samePlace := firstPlace.symm.trans secondPlace
  unfold bucketPlace at samePlace
  rw [sameBucket] at samePlace
  exact (List.idxOf_inj (mem_bucketMembers.mpr ⟨firstMember, sameBucket⟩)).mp samePlace

/-- What the servers of a plan do not share. -/
structure NetworkPlan.Allocated (plan : NetworkPlan) : Prop where
  names : (plan.servers.map ServerPlan.name).Nodup
  addresses : ∀ server ∈ plan.servers, ∀ other ∈ plan.servers,
    server.managementAddress = other.managementAddress → server.name = other.name
  subnets : ∀ server ∈ plan.servers, ∀ other ∈ plan.servers,
    server.containerSubnet = other.containerSubnet → server.name = other.name
  prefixes : ∀ server ∈ plan.servers,
    server.containerSubnet.prefixLength = containerServerPrefix
  peers : ∀ server ∈ plan.servers, server.peers =
    (plan.servers.filter fun other => other.name ≠ server.name).map ServerPlan.peerPlan

/-- The peers of a server are found before or after peers were given to the others. -/
theorem populateServerNetworks_peers
    (member : server ∈ populateServerNetworks servers) :
    server.peers = ((populateServerNetworks servers).filter fun other =>
      other.name ≠ server.name).map ServerPlan.peerPlan := by
  obtain ⟨base, _, rfl⟩ := List.mem_map.mp member
  simp only [populateServerNetworks, List.filter_map, List.map_map]
  rfl

/-- A server that was planned has the addresses of its slot. -/
theorem baseServer_eq_some
    (planned : baseServer sha config managementCidr containerCidr name publicHost slot =
      some server) :
    server.name = name ∧ managementCidr.address (slot + 1) = some server.managementAddress ∧
      containerCidr.subnet containerServerPrefix slot = some server.containerSubnet := by
  obtain ⟨containerSubnet, subnet, rest⟩ := Option.bind_eq_some_iff.mp planned
  obtain ⟨managementAddress, address, rest⟩ := Option.bind_eq_some_iff.mp rest
  obtain ⟨bridgeGateway, _, rest⟩ := Option.bind_eq_some_iff.mp rest
  obtain ⟨dnsAddress, _, rest⟩ := Option.bind_eq_some_iff.mp rest
  obtain ⟨proxyAddress, _, built⟩ := Option.bind_eq_some_iff.mp rest
  obtain rfl := Option.some.inj built
  exact ⟨rfl, address, subnet⟩

/-- The servers that a plan is made of, before they get to know each other. -/
def plannedServers
    (sha : Sha256)
    (config : Config)
    (management container : Ipv4Cidr)
    (assignments : List (String × ℕ)) : List ServerPlan :=
  config.servers.toList.filterMap fun (name, publicHost) => do
    let slot ← assignments.lookup (serverIdentity config name)
    baseServer sha config management container name publicHost slot

/-- The steps of a successful plan. -/
theorem NetworkPlanner.plan_eq_ok
    {plan : NetworkPlan}
    (planned : NetworkPlanner.plan sha config = .ok plan) :
    ∃ slots assignments,
      configuredCidrs sha config = .ok (plan.managementCidr, plan.containerCidr) ∧
      serverSlots plan.managementCidr plan.containerCidr = .ok slots ∧
      allocateBucketed sha (config.servers.keys.map (serverIdentity config)) slots
        serverBucketCapacity "servers" = .ok assignments ∧
      plan.project = config.project ∧
      plan.servers = populateServerNetworks (plannedServers sha config plan.managementCidr
        plan.containerCidr assignments) := by
  obtain ⟨⟨management, container⟩, cidrs, planned⟩ := Fallible.bind_eq_ok_iff.mp planned
  obtain ⟨slots, counted, planned⟩ := Fallible.bind_eq_ok_iff.mp planned
  obtain ⟨assignments, allocated, planned⟩ := Fallible.bind_eq_ok_iff.mp planned
  obtain ⟨_, _, result⟩ := Fallible.bind_eq_ok_iff.mp planned
  obtain rfl := Except.ok.inj result
  exact ⟨slots, assignments, cidrs, counted, allocated, rfl, rfl⟩

theorem mem_of_lookup
    {assignments : List (String × ℕ)}
    {slot : ℕ}
    (found : assignments.lookup identity = some slot) :
    (identity, slot) ∈ assignments := by
  obtain ⟨before, after, split, _⟩ := List.lookup_eq_some_iff.mp found
  simp [split]

theorem mem_plannedServers
    {config : Config}
    {assignments : List (String × ℕ)}
    {server : ServerPlan}
    (member : server ∈ plannedServers sha config management container assignments) :
    ∃ slot, (serverIdentity config server.name, slot) ∈ assignments ∧
      management.address (slot + 1) = some server.managementAddress ∧
      container.subnet containerServerPrefix slot = some server.containerSubnet := by
  obtain ⟨⟨name, publicHost⟩, _, planned⟩ := List.mem_filterMap.mp member
  obtain ⟨slot, assigned, built⟩ := Option.bind_eq_some_iff.mp planned
  obtain ⟨rfl, address, subnet⟩ := baseServer_eq_some built
  exact ⟨slot, mem_of_lookup assigned, address, subnet⟩

theorem serverIdentity_injective (config : Config) :
    Function.Injective (serverIdentity config) := by
  intro first second same
  have texts := congrArg String.toList same
  simp only [serverIdentity, String.toList_append] at texts
  exact String.toList_inj.mp (List.append_cancel_left texts)

/-- The planner gives every server a place of its own. -/
theorem NetworkPlanner.plan_allocated
    {plan : NetworkPlan}
    (planned : NetworkPlanner.plan sha config = .ok plan) :
    plan.Allocated := by
  obtain ⟨slots, assignments, _, _, allocated, _, servers⟩ := plan_eq_ok planned
  set base := plannedServers sha config plan.managementCidr plan.containerCidr assignments
  have origin : ∀ server ∈ plan.servers, ∃ peers, ∃ planned ∈ base,
      server = { planned with peers := peers } := by
    intro server member
    rw [servers] at member
    obtain ⟨planned, inBase, rfl⟩ := List.mem_map.mp member
    exact ⟨_, planned, inBase, rfl⟩
  have names : (base.map ServerPlan.name).Nodup := by
    refine List.pairwise_map.mpr (List.Pairwise.filterMap _ ?_ config.servers.distinct_keys_toList)
    rintro ⟨name, _⟩ ⟨other, _⟩ different server found otherServer otherFound same
    obtain ⟨_, _, built⟩ := Option.bind_eq_some_iff.mp found
    obtain ⟨_, _, otherBuilt⟩ := Option.bind_eq_some_iff.mp otherFound
    rw [(baseServer_eq_some built).1, (baseServer_eq_some otherBuilt).1] at same
    exact different (by simp [same])
  refine ⟨?_, ?_, ?_, ?_, ?_⟩
  · rw [servers, populateServerNetworks, List.map_map]
    exact names
  · intro server member other otherMember same
    obtain ⟨_, server, inBase, rfl⟩ := origin server member
    obtain ⟨_, other, otherInBase, rfl⟩ := origin other otherMember
    obtain ⟨slot, assigned, address, _⟩ := mem_plannedServers inBase
    obtain ⟨otherSlot, otherAssigned, otherAddress, _⟩ := mem_plannedServers otherInBase
    have slotEq := Ipv4Cidr.address_injective address (otherAddress.trans (congrArg some same.symm))
    obtain rfl : slot = otherSlot := Nat.succ.inj slotEq
    exact serverIdentity_injective config
      (allocateBucketed_injective allocated assigned otherAssigned)
  · intro server member other otherMember same
    obtain ⟨_, server, inBase, rfl⟩ := origin server member
    obtain ⟨_, other, otherInBase, rfl⟩ := origin other otherMember
    obtain ⟨slot, assigned, _, subnet⟩ := mem_plannedServers inBase
    obtain ⟨otherSlot, otherAssigned, _, otherSubnet⟩ := mem_plannedServers otherInBase
    obtain rfl := Ipv4Cidr.subnet_injective subnet (otherSubnet.trans (congrArg some same.symm))
    exact serverIdentity_injective config
      (allocateBucketed_injective allocated assigned otherAssigned)
  · intro server member
    obtain ⟨_, server, inBase, rfl⟩ := origin server member
    obtain ⟨_, _, _, subnet⟩ := mem_plannedServers inBase
    exact (Ipv4Cidr.network_of_subnet subnet).2
  · intro server member
    rw [servers] at member ⊢
    exact populateServerNetworks_peers member

end Network
end Jiji
