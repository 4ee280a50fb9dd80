import Jiji.Agent.LeaseExclusion
import Jiji.Network.PlanSoundness

/-!
# Which address a deployment gets

A deployment without a lease gets the lowest address of the subnet that is available, and is
refused only if there is none.  Whatever is done to a lease table, no address is leased twice.
-/

namespace Jiji
namespace Agent

open Network

namespace AddressAllocator

variable {subnet : Ipv4Cidr} {reserved : List Ipv4Addr} {table : LeaseTable}
variable {deploymentId replicaId : String}

/-- An address of the subnet that is neither its first nor its last one, not reserved and not
leased. -/
def Available (subnet : Ipv4Cidr) (reserved : List Ipv4Addr) (table : LeaseTable)
    (address : Ipv4Addr) : Prop :=
  subnet.contains address ∧ address ≠ subnet.network ∧
    address.toNat + 1 ≠ subnet.network.toNat + subnet.addressCount ∧
    address ∉ reserved ∧ address ∉ table.usedAddresses

/-- The available addresses are those that the search looks at and does not skip. -/
theorem available_iff {address : Ipv4Addr} :
    Available subnet reserved table address ↔
      ∃ offset ∈ List.range' 1 (subnet.addressCount - 1 - 1),
        subnet.address offset = some address ∧
          ¬(address ∈ (new subnet reserved).reserved ∨ address ∈ table.usedAddresses) := by
  have numbers : ∀ last, subnet.address (subnet.addressCount - 1) = some last →
      last.toNat = subnet.network.toNat + (subnet.addressCount - 1) :=
    fun last found => (Ipv4Cidr.toNat_of_address found).2
  simp only [Available, Ipv4Cidr.contains_iff, new, List.mem_range'_1, List.mem_append,
    List.mem_cons, Option.mem_toList, not_or]
  constructor
  · rintro ⟨⟨above, below⟩, notFirst, notLast, unreserved, unused⟩
    have different : address.toNat ≠ subnet.network.toNat :=
      fun same => notFirst (BitVec.eq_of_toNat_eq same)
    obtain ⟨found, isFound⟩ : ∃ found,
        subnet.address (address.toNat - subnet.network.toNat) = some found :=
      Ipv4Cidr.address_eq_some (by omega)
    have number := (Ipv4Cidr.toNat_of_address isFound).2
    obtain rfl : found = address := BitVec.eq_of_toNat_eq (by omega)
    refine ⟨_, ⟨by omega, by omega⟩, isFound, ⟨fun last => ?_, notFirst, unreserved⟩, unused⟩
    have lastNumber := numbers _ last
    omega
  · rintro ⟨offset, ⟨positive, small⟩, found, ⟨notLast, notFirst, unreserved⟩, unused⟩
    have number := (Ipv4Cidr.toNat_of_address found).2
    exact ⟨⟨by omega, by omega⟩, notFirst, by omega, unreserved, unused⟩

/-- The search takes the first address that it does not skip. -/
theorem claimFirst_spec
    (allocator : AddressAllocator)
    (replicaId : String)
    (offsets : List ℕ)
    (free : table.addressLease deploymentId = none) :
    (∃ earlier offset later address, offsets = earlier ++ offset :: later ∧
      allocator.subnet.address offset = some address ∧
      ¬(address ∈ allocator.reserved ∨ address ∈ table.usedAddresses) ∧
      (∀ before ∈ earlier, ∀ other, allocator.subnet.address before = some other →
        other ∈ allocator.reserved ∨ other ∈ table.usedAddresses) ∧
      claimFirst allocator table.usedAddresses deploymentId replicaId table offsets =
        (.ok ⟨deploymentId, replicaId, address, .active, none⟩,
          table.put deploymentId ⟨deploymentId, replicaId, address, .active, none⟩)) ∨
    (∀ offset ∈ offsets, ∀ address, allocator.subnet.address offset = some address →
        address ∈ allocator.reserved ∨ address ∈ table.usedAddresses) ∧
      claimFirst allocator table.usedAddresses deploymentId replicaId table offsets =
        (.error (.exhausted allocator.subnet), table) := by
  induction offsets with
  | nil => exact Or.inr ⟨by simp, rfl⟩
  | cons offset offsets inductionHypothesis =>
      by_cases taken : ∃ address, allocator.subnet.address offset = some address ∧
          ¬(address ∈ allocator.reserved ∨ address ∈ table.usedAddresses)
      · obtain ⟨address, found, unskipped⟩ := taken
        refine Or.inl ⟨[], offset, offsets, address, rfl, found, unskipped, by simp, ?_⟩
        have unused : address ∉ table.usedAddresses := fun used => unskipped (Or.inr used)
        rw [claimFirst, found]
        simp only [if_neg unskipped, LeaseTable.claimAddressLease, free, if_neg unused,
          LeaseTable.addressLease_insert, if_true, LeaseTable.put]
      · have skipped : ∀ address, allocator.subnet.address offset = some address →
            address ∈ allocator.reserved ∨ address ∈ table.usedAddresses :=
          fun address found => by_contra fun unskipped => taken ⟨address, found, unskipped⟩
        have moves : claimFirst allocator table.usedAddresses deploymentId replicaId table
              (offset :: offsets) =
            claimFirst allocator table.usedAddresses deploymentId replicaId table offsets := by
          cases found : allocator.subnet.address offset with
          | none => simp [claimFirst, found]
          | some address => simp [claimFirst, found, skipped address found]
        rw [moves]
        rcases inductionHypothesis with
          ⟨earlier, taken, later, address, rfl, found, unskipped, before, claimed⟩ |
            ⟨all, exhausted⟩
        · refine Or.inl ⟨offset :: earlier, taken, later, address, rfl, found, unskipped, ?_,
            claimed⟩
          exact List.forall_mem_cons.mpr ⟨skipped, before⟩
        · exact Or.inr ⟨List.forall_mem_cons.mpr ⟨skipped, all⟩, exhausted⟩

/-- The search takes the lowest available address, and fails only if there is none. -/
theorem claimFirst_lowest (free : table.addressLease deploymentId = none) :
    (∃ address, Available subnet reserved table address ∧
      (∀ other, Available subnet reserved table other → address.toNat ≤ other.toNat) ∧
      claimFirst (new subnet reserved) table.usedAddresses deploymentId replicaId table
          (List.range' 1 (subnet.addressCount - 1 - 1)) =
        (.ok ⟨deploymentId, replicaId, address, .active, none⟩,
          table.put deploymentId ⟨deploymentId, replicaId, address, .active, none⟩)) ∨
    (∀ address, ¬Available subnet reserved table address) ∧
      claimFirst (new subnet reserved) table.usedAddresses deploymentId replicaId table
          (List.range' 1 (subnet.addressCount - 1 - 1)) =
        (.error (.exhausted subnet), table) := by
  rcases claimFirst_spec (new subnet reserved) replicaId
      (List.range' 1 (subnet.addressCount - 1 - 1)) free with
    ⟨earlier, offset, later, address, split, found, unskipped, before, claimed⟩ |
      ⟨all, exhausted⟩
  · refine Or.inl ⟨address, available_iff.mpr ⟨offset, by simp [split], found, unskipped⟩, ?_,
      claimed⟩
    intro other available
    obtain ⟨otherOffset, member, otherFound, otherUnskipped⟩ := available_iff.mp available
    rw [(Ipv4Cidr.toNat_of_address found).2, (Ipv4Cidr.toNat_of_address otherFound).2]
    have ascending := List.pairwise_lt_range' (s := 1) (n := subnet.addressCount - 1 - 1)
    rw [split] at member ascending
    rcases List.mem_append.mp member with early | late
    · exact absurd (before _ early other otherFound) otherUnskipped
    · rcases List.mem_cons.mp late with rfl | later
      · exact le_rfl
      · exact Nat.add_le_add_left
          (List.rel_of_pairwise_cons (List.pairwise_append.mp ascending).2.1 later).le _
  · refine Or.inr ⟨fun address available => ?_, exhausted⟩
    obtain ⟨offset, member, found, unskipped⟩ := available_iff.mp available
    exact unskipped (all offset member address found)

end AddressAllocator

/-- What is done to a lease table. -/
inductive LeaseOperation
  | allocate (allocator : AddressAllocator) (deploymentId replicaId : String) (timestamp : ℕ)
  | release (deploymentId : String) (timestamp quarantineSeconds : ℕ)
  | recover (claim : LeaseClaim)
  | collect (timestamp : ℕ)
  | observe (observations : List Observation) (timestamp : String)

/-- The table after an operation, whether it succeeds or fails. -/
def LeaseOperation.perform (table : LeaseTable) : LeaseOperation → LeaseTable
  | .allocate allocator deploymentId replicaId timestamp =>
      (allocator.allocate table deploymentId replicaId timestamp).2
  | .release deploymentId timestamp quarantineSeconds =>
      match table.quarantineAddressLease deploymentId
          (min (timestamp + quarantineSeconds) (2 ^ 64 - 1)) with
      | .error _ => table
      | .ok (_, next) => next
  | .recover claim => (table.recoverAddressLease claim).2
  | .collect timestamp =>
      match table.collectExpiredAddressLeases timestamp with
      | .error _ => table
      | .ok (_, next) => next
  | .observe observations timestamp => table.recordObservations observations timestamp

namespace LeaseTable

variable {table : LeaseTable}

theorem Unshared.allocate
    (unshared : table.Unshared)
    (allocator : AddressAllocator)
    (deploymentId replicaId : String)
    (timestamp : ℕ) :
    (allocator.allocate table deploymentId replicaId timestamp).2.Unshared := by
  unfold AddressAllocator.allocate
  split
  · exact unshared
  · rename_i collected collection
    have kept := unshared.collect collection
    split
    · exact kept
    · rename_i free
      rcases AddressAllocator.claimFirst_cases free rfl with
        ⟨_, _, same⟩ | ⟨address, unused, _, same⟩
      · rw [same]
        exact kept
      · rw [same]
        exact kept.put (Or.inr unused)

/-- No operation leases an address twice. -/
theorem Unshared.perform (unshared : table.Unshared) (operation : LeaseOperation) :
    (operation.perform table).Unshared := by
  cases operation with
  | allocate allocator deploymentId replicaId timestamp =>
      exact unshared.allocate allocator deploymentId replicaId timestamp
  | release deploymentId timestamp quarantineSeconds =>
      simp only [LeaseOperation.perform, quarantineAddressLease]
      cases stands : table.addressLease deploymentId with
      | none => split_ifs <;> exact unshared
      | some lease =>
          split_ifs
          · exact unshared
          · exact unshared.put (Or.inl ⟨lease, stands, rfl⟩)
  | recover claim =>
      rcases recoverAddressLease_cases table claim with same | ⟨lease, put, _, own⟩
      · rwa [LeaseOperation.perform, same]
      · rw [LeaseOperation.perform, put]
        exact unshared.put (own.imp_right And.right)
  | collect timestamp =>
      simp only [LeaseOperation.perform]
      split
      · exact unshared
      · rename_i collection
        exact unshared.collect collection
  | observe observations timestamp => exact unshared

theorem Unshared.foldl (unshared : table.Unshared) (operations : List LeaseOperation) :
    (operations.foldl LeaseOperation.perform table).Unshared := by
  induction operations generalizing table with
  | nil => exact unshared
  | cons operation operations inductionHypothesis =>
      exact inductionHypothesis (unshared.perform operation)

/-- A lease that a collection deletes. -/
theorem expired_iff {timestamp : ℕ} {lease : AddressLease} :
    table.expired timestamp lease = true ↔
      lease.state = .quarantined ∧
        (∃ deadline ≤ timestamp, lease.quarantineUntil = some deadline) ∧
        lease.deploymentId ∉ table.claimed := by
  simp [expired, Option.any_eq_true, and_left_comm, and_comm]

end LeaseTable

/-- At a time that fits its column, a collection deletes exactly the leases whose quarantine
has ended and whose deployment is not observed, once there was a discovery; a deployment
without a lease then gets the lowest available address, or is refused if there is none; and
no sequence of operations leases an address twice. -/
theorem allocation_exact
    (subnet : Ipv4Cidr)
    (reserved : List Ipv4Addr)
    (table : LeaseTable)
    (deploymentId replicaId : String)
    (timestamp : ℕ)
    (fits : timestamp < 2 ^ 63) :
    (∃ removed collected,
      table.collectExpiredAddressLeases timestamp = .ok (removed, collected) ∧
      (∀ holder lease, collected.addressLease holder = some lease ↔
        table.addressLease holder = some lease ∧
          ¬(table.lastDiscoveryAt ≠ none ∧ lease.state = .quarantined ∧
            (∃ deadline ≤ timestamp, lease.quarantineUntil = some deadline) ∧
            lease.deploymentId ∉ table.claimed)) ∧
      (collected.addressLease deploymentId = none →
        (∃ address, AddressAllocator.Available subnet reserved collected address ∧
          (∀ other, AddressAllocator.Available subnet reserved collected other →
            address.toNat ≤ other.toNat) ∧
          (AddressAllocator.new subnet reserved).allocate table deploymentId replicaId timestamp =
            (.ok ⟨deploymentId, replicaId, address, .active, none⟩,
              collected.put deploymentId ⟨deploymentId, replicaId, address, .active, none⟩)) ∨
        (∀ address, ¬AddressAllocator.Available subnet reserved collected address) ∧
          (AddressAllocator.new subnet reserved).allocate table deploymentId replicaId timestamp =
            (.error (.exhausted subnet), collected))) ∧
    (table.Unshared → ∀ operations : List LeaseOperation,
      (operations.foldl LeaseOperation.perform table).Unshared) := by
  refine ⟨?_, fun unshared => unshared.foldl⟩
  have collects : ∃ removed collected,
      table.collectExpiredAddressLeases timestamp = .ok (removed, collected) := by
    have column : fitsColumn timestamp ≠ false := by simpa [fitsColumn] using fits
    unfold LeaseTable.collectExpiredAddressLeases
    rw [if_neg column]
    split <;> exact ⟨_, _, rfl⟩
  obtain ⟨removed, collected, collection⟩ := collects
  refine ⟨removed, collected, collection, fun holder lease => ?_, fun free => ?_⟩
  · rw [LeaseTable.addressLease_of_collect collection, ← LeaseTable.expired_iff, not_and_or,
      not_not, Bool.not_eq_true]
  · simp only [AddressAllocator.allocate, collection, free]
    exact AddressAllocator.claimFirst_lowest free

/-- A table after a discovery that found nothing. -/
def discoveredTable : LeaseTable := ⟨∅, some "5", []⟩

/-- A network with two addresses for deployments. -/
def smallestSubnet : Ipv4Cidr := ⟨Ipv4Addr.ofOctets 10 9 0 0, 30, by decide, by decide⟩

theorem allocation_exact_first :
    ((AddressAllocator.new smallestSubnet []).allocate discoveredTable "d" "r" 0).1 =
      .ok ⟨"d", "r", Ipv4Addr.ofOctets 10 9 0 1, .active, none⟩ ∧
    ∀ operations : List LeaseOperation,
      (operations.foldl LeaseOperation.perform discoveredTable).Unshared := by
  refine ⟨by decide +kernel, (allocation_exact smallestSubnet [] discoveredTable "d" "r" 0
    (by decide)).2 ?_⟩
  intro first second lease other stands
  simp [LeaseTable.addressLease, discoveredTable] at stands

/-- At a time that does not fit its column a deployment is refused although an address is
available. -/
theorem allocation_fails_late :
    ((AddressAllocator.new smallestSubnet []).allocate discoveredTable "d" "r" (2 ^ 63)).1 =
      .error (.store .database) ∧
    AddressAllocator.Available smallestSubnet [] discoveredTable
      (Ipv4Addr.ofOctets 10 9 0 1) := by
  refine ⟨by decide +kernel, by decide +kernel, by decide, by decide, by simp, ?_⟩
  simp [LeaseTable.mem_usedAddresses, LeaseTable.addressLease, discoveredTable]

end Agent
end Jiji
