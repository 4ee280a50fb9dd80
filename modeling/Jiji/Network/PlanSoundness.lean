import Jiji.Network.Allocation

/-!
# Soundness of the network plan

A network is the interval of addresses that starts at a multiple of its size.  Two
networks overlap exactly if they have an address in common, so the checks of the planner
and the slots of the servers keep all planned addresses apart.
-/

namespace Jiji
namespace Network

open Std (ExtTreeMap)

namespace Ipv4Cidr

variable {cidr other subnet : Ipv4Cidr} {address : Ipv4Addr}

theorem prefixMask_eq (prefixLength : ℕ) :
    prefixMask prefixLength = BitVec.allOnes 32 <<< (32 - prefixLength) := by
  unfold prefixMask
  split
  · rename_i zero
    subst zero
    decide
  · rfl

/-- Masking an address rounds it down to a multiple of the size of the network. -/
theorem toNat_and_prefixMask (address : Ipv4Addr) (prefixLength : ℕ) :
    (address &&& prefixMask prefixLength).toNat =
      address.toNat / 2 ^ (32 - prefixLength) * 2 ^ (32 - prefixLength) := by
  have shifted : address &&& prefixMask prefixLength =
      (address >>> (32 - prefixLength)) <<< (32 - prefixLength) := by
    rw [prefixMask_eq]
    apply BitVec.eq_of_getLsbD_eq
    intro index inside
    rw [BitVec.getLsbD_and, BitVec.getLsbD_shiftLeft, BitVec.getLsbD_shiftLeft,
      BitVec.getLsbD_allOnes, BitVec.getLsbD_ushiftRight]
    by_cases low : index < 32 - prefixLength
    · simp [low]
    · have back : 32 - prefixLength + (index - (32 - prefixLength)) = index := by omega
      have high : index - (32 - prefixLength) < 32 := by omega
      simp [low, inside, back, high]
  have bound : address.toNat / 2 ^ (32 - prefixLength) * 2 ^ (32 - prefixLength) < 2 ^ 32 :=
    lt_of_le_of_lt (Nat.div_mul_le_self _ _) address.isLt
  rw [shifted, BitVec.toNat_shiftLeft, BitVec.toNat_ushiftRight, Nat.shiftRight_eq_div_pow,
    Nat.shiftLeft_eq, Nat.mod_eq_of_lt bound]

/-- A network starts at a multiple of its size. -/
theorem addressCount_dvd_network (cidr : Ipv4Cidr) :
    cidr.addressCount ∣ cidr.network.toNat := by
  have rounded := toNat_and_prefixMask cidr.network cidr.prefixLength
  rw [cidr.canonical] at rounded
  exact ⟨_, rounded.trans (Nat.mul_comm _ _)⟩

/-- An address lies in a network if both are in the same block of its size. -/
theorem contains_iff_div :
    cidr.contains address ↔
      address.toNat / cidr.addressCount = cidr.network.toNat / cidr.addressCount := by
  have positive : 0 < cidr.addressCount := Nat.two_pow_pos _
  have aligned := Nat.div_mul_cancel cidr.addressCount_dvd_network
  rw [contains, beq_iff_eq, ← BitVec.toNat_inj, toNat_and_prefixMask, ← addressCount]
  constructor
  · intro same
    rw [← same, Nat.mul_div_cancel _ positive]
  · intro same
    rw [same, aligned]

/-- The addresses of a network. -/
theorem contains_iff :
    cidr.contains address ↔
      cidr.network.toNat ≤ address.toNat ∧
        address.toNat < cidr.network.toNat + cidr.addressCount := by
  have positive : 0 < cidr.addressCount := Nat.two_pow_pos _
  obtain ⟨block, aligned⟩ := cidr.addressCount_dvd_network
  rw [contains_iff_div, aligned, Nat.mul_div_cancel_left _ positive, Nat.div_eq_iff positive,
    Nat.mul_comm]
  omega

/-- A network does not reach beyond the end of the address space. -/
theorem network_add_addressCount_le (cidr : Ipv4Cidr) :
    cidr.network.toNat + cidr.addressCount ≤ 2 ^ 32 := by
  obtain ⟨block, aligned⟩ := cidr.addressCount_dvd_network
  have whole : cidr.addressCount * 2 ^ cidr.prefixLength = 2 ^ 32 := by
    rw [addressCount, ← pow_add, Nat.sub_add_cancel cidr.prefixLength_le]
  have below := cidr.network.isLt
  rw [aligned, ← whole] at below ⊢
  have next : block + 1 ≤ 2 ^ cidr.prefixLength := Nat.lt_of_mul_lt_mul_left below
  calc cidr.addressCount * block + cidr.addressCount
      = cidr.addressCount * (block + 1) := by ring
    _ ≤ cidr.addressCount * 2 ^ cidr.prefixLength := Nat.mul_le_mul_left _ next

/-- The number of the address at an offset. -/
theorem toNat_of_address
    (found : cidr.address offset = some address) :
    offset < cidr.addressCount ∧ address.toNat = cidr.network.toNat + offset := by
  simp only [Ipv4Cidr.address, Option.ite_none_left_eq_some, Option.some.injEq, not_le] at found
  obtain ⟨small, rfl⟩ := found
  refine ⟨small, ?_⟩
  have room := cidr.network_add_addressCount_le
  have offsetFits : offset < 2 ^ 32 := by omega
  rw [BitVec.toNat_add, BitVec.toNat_ofNat, Nat.mod_eq_of_lt offsetFits, Nat.mod_eq_of_lt]
  omega

theorem address_eq_some {offset : ℕ} (small : offset < cidr.addressCount) :
    ∃ address, cidr.address offset = some address :=
  ⟨_, if_neg (Nat.not_le.mpr small)⟩

theorem contains_of_address
    (found : cidr.address offset = some address) :
    cidr.contains address := by
  obtain ⟨small, number⟩ := toNat_of_address found
  rw [contains_iff, number]
  omega

/-- Networks with an address in common overlap. -/
theorem overlaps_of_contains
    (inFirst : cidr.contains address)
    (inSecond : other.contains address) :
    cidr.overlaps other := by
  have nested : ∀ {small large : Ipv4Cidr}, large.prefixLength ≤ small.prefixLength →
      small.contains address → large.contains address → large.contains small.network := by
    intro small large longer inSmall inLarge
    rw [contains_iff_div] at inSmall inLarge ⊢
    have sizes : large.addressCount =
        small.addressCount * 2 ^ (small.prefixLength - large.prefixLength) := by
      have bound := small.prefixLength_le
      rw [addressCount, addressCount, ← pow_add]
      congr 1
      omega
    rw [← inLarge, sizes, ← Nat.div_div_eq_div_mul, ← Nat.div_div_eq_div_mul, inSmall]
  rw [overlaps, Bool.or_eq_true]
  rcases le_total cidr.prefixLength other.prefixLength with shorter | longer
  · exact Or.inl (nested shorter inSecond inFirst)
  · exact Or.inr (nested longer inFirst inSecond)

/-- The place of a subnet in its network. -/
theorem toNat_of_subnet
    (found : cidr.subnet newPrefix index = some subnet) :
    subnet.network.toNat = cidr.network.toNat + index * subnet.addressCount ∧
      index * subnet.addressCount + subnet.addressCount ≤ cidr.addressCount := by
  obtain ⟨starts, hasPrefix⟩ := network_of_subnet found
  have count : subnet.addressCount = 2 ^ (32 - newPrefix) := by rw [addressCount, hasPrefix]
  rw [← count] at starts
  refine ⟨(toNat_of_address starts).2, ?_⟩
  simp only [Ipv4Cidr.subnet, subnetCount, Option.bind_eq_bind, Option.bind_eq_some_iff,
    Option.ite_none_left_eq_some, Option.some.injEq, not_or, not_lt, not_le] at found
  obtain ⟨_, ⟨⟨longer, short⟩, rfl⟩, small, _⟩ := found
  have whole : 2 ^ (newPrefix - cidr.prefixLength) * subnet.addressCount = cidr.addressCount := by
    rw [count, addressCount, ← pow_add]
    congr 1
    omega
  calc index * subnet.addressCount + subnet.addressCount
      = (index + 1) * subnet.addressCount := by ring
    _ ≤ 2 ^ (newPrefix - cidr.prefixLength) * subnet.addressCount := Nat.mul_le_mul_right _ small
    _ = cidr.addressCount := whole

/-- A subnet lies in its network. -/
theorem contains_of_subnet
    (found : cidr.subnet newPrefix index = some subnet)
    (inside : subnet.contains address) :
    cidr.contains address := by
  obtain ⟨starts, fits⟩ := toNat_of_subnet found
  rw [contains_iff] at inside ⊢
  omega

/-- Subnets at different indices have no address in common. -/
theorem subnet_disjoint
    (atFirst : cidr.subnet newPrefix first = some subnet)
    (atSecond : cidr.subnet newPrefix second = some other)
    (different : first ≠ second) :
    ¬(subnet.contains address ∧ other.contains address) := by
  rintro ⟨inFirst, inSecond⟩
  have sameCount : other.addressCount = subnet.addressCount := by
    rw [addressCount, addressCount, (network_of_subnet atFirst).2, (network_of_subnet atSecond).2]
  obtain ⟨firstStarts, _⟩ := toNat_of_subnet atFirst
  obtain ⟨secondStarts, _⟩ := toNat_of_subnet atSecond
  rw [sameCount] at secondStarts
  rw [contains_iff] at inFirst inSecond
  rw [sameCount] at inSecond
  rcases Nat.lt_or_gt_of_ne different with before | after
  · have apart := Nat.mul_le_mul_right subnet.addressCount before
    rw [Nat.succ_mul] at apart
    omega
  · have apart := Nat.mul_le_mul_right subnet.addressCount after
    rw [Nat.succ_mul] at apart
    omega

/-- Every index below the number of subnets has one. -/
theorem subnet_eq_some
    (counted : cidr.subnetCount newPrefix = some count)
    (small : index < count) :
    ∃ subnet, cidr.subnet newPrefix index = some subnet := by
  simp only [subnetCount, Option.ite_none_left_eq_some, not_or, not_lt, Option.some.injEq]
    at counted
  obtain ⟨⟨longer, short⟩, rfl⟩ := counted
  have whole : cidr.addressCount = 2 ^ (newPrefix - cidr.prefixLength) * 2 ^ (32 - newPrefix) := by
    rw [addressCount, ← pow_add]
    congr 1
    omega
  have inside : index * 2 ^ (32 - newPrefix) < cidr.addressCount := by
    rw [whole]
    exact Nat.mul_lt_mul_of_pos_right small (Nat.two_pow_pos _)
  obtain ⟨start, starts⟩ := address_eq_some inside
  obtain ⟨_, number⟩ := toNat_of_address starts
  have aligned : start &&& prefixMask newPrefix = start := by
    rw [← BitVec.toNat_inj, toNat_and_prefixMask]
    refine Nat.div_mul_cancel ?_
    rw [number]
    refine Nat.dvd_add (Nat.dvd_trans ?_ cidr.addressCount_dvd_network) (Nat.dvd_mul_left _ _)
    rw [whole]
    exact Nat.dvd_mul_left _ _
  refine ⟨⟨start, newPrefix, short, aligned⟩, ?_⟩
  have known : cidr.subnetCount newPrefix = some (2 ^ (newPrefix - cidr.prefixLength)) :=
    if_neg (by omega)
  simp [Ipv4Cidr.subnet, known, small, starts, new, short, aligned, Except.toOption]

/-- An address of a network is at exactly one offset. -/
theorem existsUnique_offset
    (inside : cidr.contains address) :
    ∃! offset, cidr.address offset = some address := by
  obtain ⟨above, below⟩ := contains_iff.mp inside
  have small : address.toNat - cidr.network.toNat < cidr.addressCount := by omega
  obtain ⟨placed, found⟩ := address_eq_some small
  have number := (toNat_of_address found).2
  have same : placed = address := by
    apply BitVec.eq_of_toNat_eq
    omega
  refine ⟨address.toNat - cidr.network.toNat, found.trans (congrArg some same), ?_⟩
  intro offset atOffset
  have offsetNumber := (toNat_of_address atOffset).2
  omega

/-- An address of a network is in exactly one of its subnets. -/
theorem existsUnique_subnet
    (counted : cidr.subnetCount newPrefix = some count)
    (inside : cidr.contains address) :
    ∃! index, index < count ∧
      ∃ subnet, cidr.subnet newPrefix index = some subnet ∧ subnet.contains address := by
  have known := counted
  simp only [subnetCount, Option.ite_none_left_eq_some, not_or, not_lt, Option.some.injEq]
    at known
  obtain ⟨⟨longer, short⟩, rfl⟩ := known
  set size := 2 ^ (32 - newPrefix) with sizeEq
  have whole : cidr.addressCount = size * 2 ^ (newPrefix - cidr.prefixLength) := by
    rw [sizeEq, addressCount, ← pow_add]
    congr 1
    omega
  obtain ⟨above, below⟩ := contains_iff.mp inside
  set index := (address.toNat - cidr.network.toNat) / size with indexEq
  have small : index < 2 ^ (newPrefix - cidr.prefixLength) :=
    Nat.div_lt_of_lt_mul (by omega)
  obtain ⟨subnet, found⟩ := subnet_eq_some counted small
  have inSubnet : subnet.contains address := by
    have sized : subnet.addressCount = size := by
      rw [addressCount, (network_of_subnet found).2]
    have starts := (toNat_of_subnet found).1
    have lower := Nat.div_mul_le_self (address.toNat - cidr.network.toNat) size
    have upper := Nat.lt_div_mul_add (a := address.toNat - cidr.network.toNat)
      (Nat.two_pow_pos (32 - newPrefix))
    rw [← indexEq] at lower
    rw [← sizeEq, ← indexEq] at upper
    rw [contains_iff, starts, sized]
    omega
  refine ⟨index, ⟨small, subnet, found, inSubnet⟩, ?_⟩
  rintro position ⟨_, other, atPosition, inOther⟩
  by_contra different
  exact subnet_disjoint atPosition found different ⟨inOther, inSubnet⟩

theorem contains_network (cidr : Ipv4Cidr) : cidr.contains cidr.network := by
  rw [contains, beq_iff_eq]
  exact cidr.canonical

/-- Offsets, subnets, overlaps and texts of a network are exact. -/
theorem cidr_arithmetic_exact
    (cidr : Ipv4Cidr)
    (newPrefix : ℕ)
    (longer : cidr.prefixLength ≤ newPrefix)
    (short : newPrefix ≤ 32) :
    (∀ offset < cidr.addressCount,
        cidr.network.toNat + offset < 2 ^ 32 ∧
        ∃ address, cidr.address offset = some address ∧
          address.toNat = cidr.network.toNat + offset ∧ cidr.contains address) ∧
      (∀ address, cidr.contains address →
        ∃! offset, offset < cidr.addressCount ∧ cidr.address offset = some address) ∧
      (∃ count, cidr.subnetCount newPrefix = some count ∧
        (∀ index < count, ∃ subnet, cidr.subnet newPrefix index = some subnet) ∧
        ∀ address, cidr.contains address → ∃! index, index < count ∧
          ∃ subnet, cidr.subnet newPrefix index = some subnet ∧ subnet.contains address) ∧
      (∀ other : Ipv4Cidr, cidr.overlaps other ↔
        ∃ address, cidr.contains address ∧ other.contains address) ∧
      fromStr cidr.display = .ok cidr := by
  have counted : cidr.subnetCount newPrefix = some (2 ^ (newPrefix - cidr.prefixLength)) :=
    if_neg (by omega)
  refine ⟨?_, ?_, ⟨_, counted, fun index small => subnet_eq_some counted small,
    fun address inside => existsUnique_subnet counted inside⟩, ?_, fromStr_display cidr⟩
  · intro offset small
    have room := cidr.network_add_addressCount_le
    obtain ⟨address, found⟩ := address_eq_some small
    exact ⟨by omega, address, found, (toNat_of_address found).2, contains_of_address found⟩
  · intro address inside
    obtain ⟨offset, found, unique⟩ := existsUnique_offset inside
    exact ⟨offset, ⟨(toNat_of_address found).1, found⟩,
      fun position atPosition => unique position atPosition.2⟩
  · intro other
    constructor
    · intro overlapping
      rw [overlaps, Bool.or_eq_true] at overlapping
      cases overlapping with
      | inl inFirst => exact ⟨other.network, inFirst, other.contains_network⟩
      | inr inSecond => exact ⟨cidr.network, cidr.contains_network, inSecond⟩
    · rintro ⟨address, inFirst, inSecond⟩
      exact overlaps_of_contains inFirst inSecond

def wholeSpace : Ipv4Cidr := ⟨0, 0, by decide, by decide⟩

theorem cidr_arithmetic_exact_wholeSpace :
    ∃! offset, offset < wholeSpace.addressCount ∧
      wholeSpace.address offset = some (Ipv4Addr.ofOctets 203 0 113 7) :=
  (cidr_arithmetic_exact wholeSpace 32 (by decide) (by decide)).2.1 _ (by decide)

end Ipv4Cidr

section Slots

variable {sha : Sha256} {identities : List String} {totalSlots desiredCapacity : ℕ}
variable {kind identity : String} {assignments : List (String × ℕ)}

theorem lookup_map_self
    {identities : List String}
    {slot : String → ℕ} :
    (identities.map fun identity => (identity, slot identity)).lookup identity =
      if identity ∈ identities then some (slot identity) else none := by
  induction identities with
  | nil => rfl
  | cons head rest inductionHypothesis =>
      by_cases same : identity = head
      · subst same
        simp
      · have differs : (identity == head) = false := beq_false_of_ne same
        simp [List.lookup_cons, differs, same, inductionHypothesis]

/-- Every identity gets its slot, and nothing else does. -/
theorem lookup_allocateBucketed
    (allocated : allocateBucketed sha identities totalSlots desiredCapacity kind =
      .ok assignments) :
    assignments.lookup identity =
      if identity ∈ identities then
        some (bucketOf sha totalSlots desiredCapacity identity * min desiredCapacity totalSlots +
          bucketPlace sha identities totalSlots desiredCapacity identity)
      else none := by
  obtain ⟨rfl, _⟩ := allocateBucketed_eq_ok allocated
  exact lookup_map_self

/-- Slots are below their number. -/
theorem allocateBucketed_lt
    (allocated : allocateBucketed sha identities totalSlots desiredCapacity kind =
      .ok assignments)
    (someSlots : 0 < totalSlots)
    (someCapacity : 0 < desiredCapacity)
    {slot : ℕ}
    (assigned : (identity, slot) ∈ assignments) :
    slot < totalSlots := by
  obtain ⟨rfl, room⟩ := allocateBucketed_eq_ok allocated
  obtain ⟨named, member, pair⟩ := List.mem_map.mp assigned
  obtain ⟨rfl, rfl⟩ := Prod.mk.inj pair
  have place := room _ member
  set capacity := min desiredCapacity totalSlots
  have capacityPositive : 0 < capacity := lt_min someCapacity someSlots
  have inBucket : bucketOf sha totalSlots desiredCapacity named < totalSlots / capacity :=
    Nat.mod_lt _ (Nat.div_pos (min_le_right _ _) capacityPositive)
  calc bucketOf sha totalSlots desiredCapacity named * capacity +
        bucketPlace sha identities totalSlots desiredCapacity named
      < bucketOf sha totalSlots desiredCapacity named * capacity + capacity := by omega
    _ = (bucketOf sha totalSlots desiredCapacity named + 1) * capacity := by ring
    _ ≤ totalSlots / capacity * capacity := Nat.mul_le_mul_right _ inBucket
    _ ≤ totalSlots := Nat.div_mul_le_self _ _

theorem serverSlots_eq_ok
    (counted : serverSlots management container = .ok slots) :
    container.subnetCount containerServerPrefix = some slots ∧
      slots ≤ management.addressCount - 2 ∧ 0 < slots := by
  unfold serverSlots at counted
  split at counted
  · cases counted
  · rename_i found
    split at counted
    · cases counted
    · rename_i enough
      obtain rfl := Except.ok.inj counted
      refine ⟨found, Nat.not_lt.mp enough, ?_⟩
      simp only [Ipv4Cidr.subnetCount, Option.ite_none_left_eq_some, Option.some.injEq] at found
      rw [← found.2]
      exact Nat.two_pow_pos _

end Slots

section Servers

variable {sha : Sha256} {config : Config} {management container : Ipv4Cidr}

/-- A server with everything that its slot and its project give it. -/
structure ServerPlan.Placed
    (sha : Sha256)
    (project : String)
    (management container : Ipv4Cidr)
    (slot : ℕ)
    (server : ServerPlan) : Prop where
  management : management.address (slot + 1) = some server.managementAddress
  subnet : container.subnet containerServerPrefix slot = some server.containerSubnet
  gateway : server.containerSubnet.address 1 = some server.bridgeGateway
  dns : server.containerSubnet.address 2 = some server.dnsAddress
  proxy : server.containerSubnet.address 3 = some server.proxyAddress
  port : server.wireguardPort = Network.wireguardPort sha project
  wireguard : server.wireguardInterface = wireguardInterfaceName sha project
  bridge : server.bridgeInterface = bridgeInterfaceName sha project
  network : server.bridgeName = bridgeNetworkName sha project

theorem placed_of_baseServer
    (planned : baseServer sha config management container name publicHost slot = some server) :
    server.name = name ∧ server.publicHost = publicHost ∧
      server.Placed sha config.project management container slot := by
  obtain ⟨containerSubnet, subnet, rest⟩ := Option.bind_eq_some_iff.mp planned
  obtain ⟨managementAddress, address, rest⟩ := Option.bind_eq_some_iff.mp rest
  obtain ⟨bridgeGateway, gateway, rest⟩ := Option.bind_eq_some_iff.mp rest
  obtain ⟨dnsAddress, dns, rest⟩ := Option.bind_eq_some_iff.mp rest
  obtain ⟨proxyAddress, proxy, built⟩ := Option.bind_eq_some_iff.mp rest
  obtain rfl := Option.some.inj built
  exact ⟨rfl, rfl, address, subnet, gateway, dns, proxy, rfl, rfl, rfl, rfl⟩

/-- A slot below the number of slots has all the addresses of a server. -/
theorem baseServer_isSome
    (name publicHost : String)
    (counted : serverSlots management container = .ok slots)
    (small : slot < slots) :
    ∃ server, baseServer sha config management container name publicHost slot = some server := by
  obtain ⟨subnets, enough, _⟩ := serverSlots_eq_ok counted
  obtain ⟨subnet, found⟩ := Ipv4Cidr.subnet_eq_some subnets small
  have room : slot + 1 < management.addressCount := by omega
  obtain ⟨managementAddress, atSlot⟩ := Ipv4Cidr.address_eq_some room
  have size : subnet.addressCount = 2048 := by
    rw [Ipv4Cidr.addressCount, (Ipv4Cidr.network_of_subnet found).2]
    rfl
  have first : ∀ offset < 4, ∃ address, subnet.address offset = some address :=
    fun offset below => Ipv4Cidr.address_eq_some (by omega)
  obtain ⟨gateway, atGateway⟩ := first 1 (by decide)
  obtain ⟨dns, atDns⟩ := first 2 (by decide)
  obtain ⟨proxy, atProxy⟩ := first 3 (by decide)
  simp [baseServer, found, atSlot, atGateway, atDns, atProxy]

/-- The servers of a plan are those of the configuration, each placed at a slot of its own. -/
theorem NetworkPlanner.plan_placed
    {plan : NetworkPlan}
    (planned : NetworkPlanner.plan sha config = .ok plan) :
    plan.servers.map (fun server => (server.name, server.publicHost)) = config.servers.toList ∧
      ∃ slots assignments, serverSlots plan.managementCidr plan.containerCidr = .ok slots ∧
        allocateBucketed sha (config.servers.keys.map (serverIdentity config)) slots
          serverBucketCapacity "servers" = .ok assignments ∧
        ∀ server ∈ plan.servers, ∃ slot < slots,
          (serverIdentity config server.name, slot) ∈ assignments ∧
          server.Placed sha config.project plan.managementCidr plan.containerCidr slot := by
  obtain ⟨slots, assignments, _, counted, allocated, _, servers⟩ := plan_eq_ok planned
  obtain ⟨_, _, someSlots⟩ := serverSlots_eq_ok counted
  refine ⟨?_, slots, assignments, counted, allocated, fun server member => ?_⟩
  · rw [servers, populateServerNetworks, List.map_map, plannedServers, List.map_filterMap]
    refine (List.filterMap_congr fun named listed => ?_).trans List.filterMap_some
    obtain ⟨name, publicHost⟩ := named
    have identified : serverIdentity config name ∈
        config.servers.keys.map (serverIdentity config) := by
      refine List.mem_map_of_mem ?_
      rw [ExtTreeMap.mem_keys, ExtTreeMap.mem_iff_isSome_getElem?,
        ExtTreeMap.mem_toList_iff_getElem?_eq_some.mp listed]
      rfl
    obtain ⟨slot, found⟩ : ∃ slot, assignments.lookup (serverIdentity config name) = some slot :=
      ⟨_, (lookup_allocateBucketed allocated).trans (if_pos identified)⟩
    have assigned := mem_of_lookup found
    obtain ⟨server, built⟩ : ∃ server, baseServer sha config plan.managementCidr
        plan.containerCidr name publicHost slot = some server :=
      baseServer_isSome name publicHost counted
        (allocateBucketed_lt allocated someSlots (by decide) assigned)
    obtain ⟨hasName, hasHost, _⟩ := placed_of_baseServer built
    simp [found, built, hasName, hasHost]
  · rw [servers] at member
    obtain ⟨base, inBase, rfl⟩ := List.mem_map.mp member
    obtain ⟨⟨name, publicHost⟩, _, made⟩ := List.mem_filterMap.mp inBase
    obtain ⟨slot, found, built⟩ := Option.bind_eq_some_iff.mp made
    obtain ⟨rfl, _, placed⟩ := placed_of_baseServer built
    have assigned := mem_of_lookup found
    exact ⟨slot, allocateBucketed_lt allocated someSlots (by decide) assigned, assigned,
      ⟨placed.management, placed.subnet, placed.gateway, placed.dns, placed.proxy, placed.port,
        placed.wireguard, placed.bridge, placed.network⟩⟩

end Servers

section Soundness

/-- The last address of a network. -/
def Ipv4Cidr.broadcast (cidr : Ipv4Cidr) : Ipv4Addr :=
  cidr.network + BitVec.ofNat 32 (cidr.addressCount - 1)

/-- An address in the interior of a network: neither its first nor its last one. -/
structure Ipv4Cidr.Interior (cidr : Ipv4Cidr) (address : Ipv4Addr) : Prop where
  contained : cidr.contains address
  notFirst : address ≠ cidr.network
  notLast : address ≠ cidr.broadcast

/-- What a plan for a configuration promises. -/
structure NetworkPlan.Sound (plan : NetworkPlan) (config : Config) : Prop where
  servers : plan.servers.map (fun server => (server.name, server.publicHost)) =
    config.servers.toList
  subnetsApart : ∀ server ∈ plan.servers, ∀ other ∈ plan.servers, server.name ≠ other.name →
    ∀ address, ¬(server.containerSubnet.contains address ∧ other.containerSubnet.contains address)
  subnetsInside : ∀ server ∈ plan.servers, ∀ address,
    server.containerSubnet.contains address → plan.containerCidr.contains address
  managementDistinct : ∀ server ∈ plan.servers, ∀ other ∈ plan.servers,
    server.name ≠ other.name → server.managementAddress ≠ other.managementAddress
  managementInterior : ∀ server ∈ plan.servers,
    plan.managementCidr.Interior server.managementAddress
  fixedDistinct : ∀ server ∈ plan.servers,
    [server.bridgeGateway, server.dnsAddress, server.proxyAddress].Nodup
  fixedInterior : ∀ server ∈ plan.servers,
    ∀ address ∈ [server.bridgeGateway, server.dnsAddress, server.proxyAddress],
      server.containerSubnet.Interior address
  peers : ∀ server ∈ plan.servers, server.peers =
    (plan.servers.filter fun other => other.name ≠ server.name).map ServerPlan.peerPlan
  managementOutside : ∀ server ∈ plan.servers, ∀ other ∈ plan.servers,
    ¬other.containerSubnet.contains server.managementAddress

namespace Ipv4Cidr

variable {cidr : Ipv4Cidr} {address : Ipv4Addr}

theorem toNat_broadcast (cidr : Ipv4Cidr) :
    cidr.broadcast.toNat = cidr.network.toNat + (cidr.addressCount - 1) := by
  have last : cidr.address (cidr.addressCount - 1) = some cidr.broadcast :=
    if_neg (Nat.not_le.mpr (Nat.sub_lt (Nat.two_pow_pos _) (by decide)))
  exact (toNat_of_address last).2

/-- An offset that is neither the first nor the last one leads to the interior. -/
theorem interior_of_address
    (found : cidr.address offset = some address)
    (positive : 0 < offset)
    (small : offset + 1 < cidr.addressCount) :
    cidr.Interior address := by
  obtain ⟨_, number⟩ := toNat_of_address found
  refine ⟨contains_of_address found, ?_, ?_⟩
  · rintro rfl
    omega
  · rintro rfl
    rw [toNat_broadcast] at number
    omega

end Ipv4Cidr

variable {sha : Sha256} {config : Config} {management container : Ipv4Cidr} {slot : ℕ}
variable {server : ServerPlan}

theorem ServerPlan.Placed.addressCount
    (placed : server.Placed sha config.project management container slot) :
    server.containerSubnet.addressCount = 2048 := by
  rw [Ipv4Cidr.addressCount, (Ipv4Cidr.network_of_subnet placed.subnet).2]
  rfl

/-- The fixed addresses of a server are different. -/
theorem ServerPlan.Placed.fixedDistinct
    (placed : server.Placed sha config.project management container slot) :
    [server.bridgeGateway, server.dnsAddress, server.proxyAddress].Nodup := by
  obtain ⟨_, gateway⟩ := Ipv4Cidr.toNat_of_address placed.gateway
  obtain ⟨_, dns⟩ := Ipv4Cidr.toNat_of_address placed.dns
  obtain ⟨_, proxy⟩ := Ipv4Cidr.toNat_of_address placed.proxy
  have apart : ∀ {left right : Ipv4Addr}, left.toNat ≠ right.toNat → left ≠ right :=
    fun different same => different (congrArg BitVec.toNat same)
  have first : server.bridgeGateway ≠ server.dnsAddress := apart (by omega)
  have second : server.bridgeGateway ≠ server.proxyAddress := apart (by omega)
  have third : server.dnsAddress ≠ server.proxyAddress := apart (by omega)
  simp [first, second, third]

/-- The fixed addresses of a server are in the interior of its subnet. -/
theorem ServerPlan.Placed.fixedInterior
    (placed : server.Placed sha config.project management container slot)
    (fixed : address ∈ [server.bridgeGateway, server.dnsAddress, server.proxyAddress]) :
    server.containerSubnet.Interior address := by
  have size := placed.addressCount
  simp only [List.mem_cons, List.not_mem_nil, or_false] at fixed
  obtain rfl | rfl | rfl := fixed
  · exact Ipv4Cidr.interior_of_address placed.gateway (by decide) (by omega)
  · exact Ipv4Cidr.interior_of_address placed.dns (by decide) (by omega)
  · exact Ipv4Cidr.interior_of_address placed.proxy (by decide) (by omega)

/-- The ranges of a plan do not overlap. -/
theorem configuredCidrs_apart
    (ranges : configuredCidrs sha config = .ok (management, container)) :
    ¬management.overlaps container := by
  obtain ⟨read, _, ranges⟩ := Fallible.bind_eq_ok_iff.mp ranges
  obtain ⟨readContainer, _, ranges⟩ := Fallible.bind_eq_ok_iff.mp ranges
  dsimp only at ranges
  split at ranges
  · cases ranges
  · obtain ⟨rfl, rfl⟩ := Prod.mk.inj (Except.ok.inj ranges)
    assumption

/-- Every plan is sound. -/
theorem NetworkPlanner.plan_sound
    (sha : Sha256)
    (config : Config)
    (plan : NetworkPlan)
    (planned : NetworkPlanner.plan sha config = .ok plan) :
    plan.Sound config := by
  have allocated := plan_allocated planned
  obtain ⟨servers, slots, assignments, counted, assigns, placed⟩ := plan_placed planned
  obtain ⟨_, _, ranges, _⟩ := plan_eq_ok planned
  obtain ⟨subnets, enough, _⟩ := serverSlots_eq_ok counted
  have inside : ∀ server ∈ plan.servers, ∀ address,
      server.containerSubnet.contains address → plan.containerCidr.contains address := by
    intro server member address contained
    obtain ⟨slot, _, _, atSlot⟩ := placed server member
    exact Ipv4Cidr.contains_of_subnet atSlot.subnet contained
  refine ⟨servers, ?_, inside, ?_, ?_, ?_, ?_, allocated.peers, ?_⟩
  · intro server member other otherMember different address
    obtain ⟨slot, _, _, atSlot⟩ := placed server member
    obtain ⟨otherSlot, _, _, atOther⟩ := placed other otherMember
    refine Ipv4Cidr.subnet_disjoint atSlot.subnet atOther.subnet ?_
    rintro rfl
    refine different (allocated.subnets server member other otherMember ?_)
    exact Option.some.inj (atSlot.subnet.symm.trans atOther.subnet)
  · exact fun server member other otherMember different same =>
      different (allocated.addresses server member other otherMember same)
  · intro server member
    obtain ⟨slot, small, _, atSlot⟩ := placed server member
    exact Ipv4Cidr.interior_of_address atSlot.management (Nat.succ_pos slot) (by omega)
  · intro server member
    obtain ⟨slot, _, _, atSlot⟩ := placed server member
    exact atSlot.fixedDistinct
  · intro server member address fixed
    obtain ⟨slot, _, _, atSlot⟩ := placed server member
    exact atSlot.fixedInterior fixed
  · intro server member other otherMember contained
    obtain ⟨slot, _, _, atSlot⟩ := placed server member
    exact configuredCidrs_apart ranges (Ipv4Cidr.overlaps_of_contains
      (Ipv4Cidr.contains_of_address atSlot.management)
      (inside other otherMember _ contained))

/-- The plan of the sample project is sound. -/
theorem NetworkPlanner.plan_sound_sample :
    ∃ plan, NetworkPlanner.plan sampleSha sampleConfig = .ok plan ∧ plan.Sound sampleConfig := by
  have succeeds : (NetworkPlanner.plan sampleSha sampleConfig).isOk = true := by decide +kernel
  cases planned : NetworkPlanner.plan sampleSha sampleConfig with
  | error problem =>
      rw [planned] at succeeds
      cases succeeds
  | ok plan => exact ⟨plan, rfl, plan_sound sampleSha sampleConfig plan planned⟩

end Soundness

end Network
end Jiji
