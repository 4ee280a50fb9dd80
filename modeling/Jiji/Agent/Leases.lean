import Jiji.Agent.Store

/-!
# Address leases

Every deployment on a host leases one address of the host's container subnet.  A
released lease stays quarantined for some time, and is collected afterwards
unless a container that carries its deployment's label is still observed.
-/

namespace Jiji
namespace Agent

open Network Replication

inductive LeaseState
  | active
  | quarantined
  deriving DecidableEq, Repr

/-- The text of a state in its column of the table. -/
def LeaseState.column : LeaseState → String
  | .active => "active"
  | .quarantined => "quarantined"

structure AddressLease where
  deploymentId : String
  replicaId : String
  address : Ipv4Addr
  state : LeaseState
  quarantineUntil : Option ℕ
  deriving DecidableEq, Repr

/-- The table of leases by deployment, with what the collection of expired leases
consults: the checkpoint of the last discovery pass and the deployments that the
labels of the observed containers name. -/
structure LeaseTable where
  leases : Std.ExtTreeMap String AddressLease
  lastDiscoveryAt : Option String
  claimed : List String

inductive LeaseError
  | exhausted (subnet : Ipv4Cidr)
  | store (error : StoreError)
  | unreadableClaim
  deriving DecidableEq

namespace LeaseTable

/-- The table of a fresh database. -/
def empty : LeaseTable where
  leases := ∅
  lastDiscoveryAt := none
  claimed := []

def addressLease (table : LeaseTable) (deploymentId : String) : Option AddressLease :=
  table.leases[deploymentId]?

/-- The addresses that are leased, whatever the state of their lease. -/
def usedAddresses (table : LeaseTable) : List Ipv4Addr :=
  (valuesOf table.leases).map AddressLease.address

/-- Claim an address for a deployment; another deployment cannot hold it. -/
def claimAddressLease
    (table : LeaseTable)
    (deploymentId replicaId : String)
    (address : Ipv4Addr) : Except StoreError (Bool × LeaseTable) :=
  match table.addressLease deploymentId with
  | some lease => .ok (lease.replicaId = replicaId && lease.address = address, table)
  | none =>
      if address ∈ table.usedAddresses then .error .database
      else
        let lease : AddressLease := ⟨deploymentId, replicaId, address, .active, none⟩
        .ok (true, { table with leases := table.leases.insert deploymentId lease })

/-- Put a deployment's lease into quarantine, if there is one. -/
def quarantineAddressLease
    (table : LeaseTable)
    (deploymentId : String)
    (quarantineUntil : ℕ) : Except StoreError (Bool × LeaseTable) :=
  if fitsColumn quarantineUntil = false then .error .database
  else
    match table.addressLease deploymentId with
    | none => .ok (false, table)
    | some lease =>
        let quarantined : AddressLease :=
          { lease with state := .quarantined, quarantineUntil := some quarantineUntil }
        .ok (true, { table with leases := table.leases.insert deploymentId quarantined })

/-- A lease whose quarantine has ended and whose deployment is not observed. -/
def expired (table : LeaseTable) (timestamp : ℕ) (lease : AddressLease) : Bool :=
  lease.state = .quarantined && lease.quarantineUntil.any (· ≤ timestamp) &&
    !table.claimed.contains lease.deploymentId

/-- Delete the expired leases, once a discovery pass has been completed. -/
def collectExpiredAddressLeases (table : LeaseTable) (timestamp : ℕ) :
    Except StoreError (ℕ × LeaseTable) :=
  if table.lastDiscoveryAt = none then .ok (0, table)
  else if fitsColumn timestamp = false then .error .database
  else
    let kept := table.leases.filter fun _ lease => !table.expired timestamp lease
    .ok (table.leases.size - kept.size, { table with leases := kept })

end LeaseTable

/-- The subnet that addresses are taken from, and the addresses that never are. -/
structure AddressAllocator where
  subnet : Ipv4Cidr
  reserved : List Ipv4Addr

namespace AddressAllocator

def defaultQuarantineSeconds : ℕ := 30

/-- An allocator that also spares the network and the broadcast address. -/
def new (subnet : Ipv4Cidr) (reserved : List Ipv4Addr) : AddressAllocator where
  subnet := subnet
  reserved :=
    (subnet.address (subnet.addressCount - 1)).toList ++ subnet.network :: reserved

/-- Claim the first address among some offsets that is neither reserved nor used. -/
def claimFirst
    (allocator : AddressAllocator)
    (used : List Ipv4Addr)
    (deploymentId replicaId : String)
    (table : LeaseTable) : List ℕ → Except LeaseError AddressLease × LeaseTable
  | [] => (.error (.exhausted allocator.subnet), table)
  | offset :: offsets =>
      match allocator.subnet.address offset with
      | none => claimFirst allocator used deploymentId replicaId table offsets
      | some address =>
          if address ∈ allocator.reserved ∨ address ∈ used then
            claimFirst allocator used deploymentId replicaId table offsets
          else
            match table.claimAddressLease deploymentId replicaId address with
            | .error error => (.error (.store error), table)
            | .ok (false, next) =>
                claimFirst allocator used deploymentId replicaId next offsets
            | .ok (true, next) =>
                match next.addressLease deploymentId with
                | none => (.error .unreadableClaim, next)
                | some lease => (.ok lease, next)

/-- Lease an address to a deployment, or return the lease it has. -/
def allocate
    (allocator : AddressAllocator)
    (table : LeaseTable)
    (deploymentId replicaId : String)
    (timestamp : ℕ) : Except LeaseError AddressLease × LeaseTable :=
  match table.collectExpiredAddressLeases timestamp with
  | .error error => (.error (.store error), table)
  | .ok (_, collected) =>
      match collected.addressLease deploymentId with
      | some existing => (.ok existing, collected)
      | none =>
          claimFirst allocator collected.usedAddresses deploymentId replicaId collected
            (List.range' 1 (allocator.subnet.addressCount - 1 - 1))

end AddressAllocator

namespace LeaseTable

variable {table next : LeaseTable} {deploymentId replicaId other : String}
variable {address : Ipv4Addr} {timestamp : ℕ}

theorem addressLease_insert (lease : AddressLease) :
    ({ table with leases := table.leases.insert deploymentId lease } : LeaseTable).addressLease
      other = if other = deploymentId then some lease else table.addressLease other := by
  have inserted := congrFun (slotsOf_insert table.leases deploymentId lease) other
  rw [Function.update_apply] at inserted
  exact inserted

/-- Write a lease into the table. -/
def put (table : LeaseTable) (deploymentId : String) (lease : AddressLease) : LeaseTable :=
  { table with leases := table.leases.insert deploymentId lease }

theorem addressLease_put (lease : AddressLease) :
    (table.put deploymentId lease).addressLease other =
      if other = deploymentId then some lease else table.addressLease other :=
  addressLease_insert lease

theorem mem_usedAddresses :
    address ∈ table.usedAddresses ↔
      ∃ holder lease, table.addressLease holder = some lease ∧ lease.address = address := by
  simp only [usedAddresses, List.mem_map, mem_valuesOf]
  constructor
  · rintro ⟨lease, ⟨holder, stands⟩, rfl⟩
    exact ⟨holder, lease, stands, rfl⟩
  · rintro ⟨holder, lease, stands, rfl⟩
    exact ⟨lease, ⟨holder, stands⟩, rfl⟩

/-- A deployment with an active lease. -/
def Leased (table : LeaseTable) (deploymentId : String) : Prop :=
  ∃ lease, table.addressLease deploymentId = some lease ∧ lease.state = .active

/-- A lease in quarantine is not active. -/
theorem not_leased_of_quarantineAddressLease
    (quarantined : table.quarantineAddressLease deploymentId timestamp =
      .ok (released, next)) :
    ¬next.Leased deploymentId := by
  rintro ⟨lease, stands, active⟩
  unfold quarantineAddressLease at quarantined
  split at quarantined
  · simp at quarantined
  · split at quarantined
    · rename_i free
      obtain ⟨_, rfl⟩ := Prod.mk.inj (Except.ok.inj quarantined)
      simp [free] at stands
    · obtain ⟨_, rfl⟩ := Prod.mk.inj (Except.ok.inj quarantined)
      rw [addressLease_insert, if_pos rfl] at stands
      simp [← Option.some.inj stands] at active

/-- Collecting leases keeps the leases that are not expired, and adds none. -/
theorem addressLease_of_collect
    (collected : table.collectExpiredAddressLeases timestamp = .ok (removed, next)) :
    next.addressLease deploymentId = some lease ↔
      table.addressLease deploymentId = some lease ∧
        (table.lastDiscoveryAt = none ∨ table.expired timestamp lease = false) := by
  unfold collectExpiredAddressLeases at collected
  split_ifs at collected with undiscovered misfit
  · obtain ⟨_, rfl⟩ := Prod.mk.inj (Except.ok.inj collected)
    simp [undiscovered]
  · obtain ⟨_, rfl⟩ := Prod.mk.inj (Except.ok.inj collected)
    simp [addressLease, Std.ExtTreeMap.getElem?_filter, undiscovered]

/-- Collecting leases gives no deployment a lease. -/
theorem collectExpiredAddressLeases_free
    (free : table.addressLease deploymentId = none)
    (collected : table.collectExpiredAddressLeases timestamp = .ok (removed, next)) :
    next.addressLease deploymentId = none := by
  unfold collectExpiredAddressLeases at collected
  split_ifs at collected
  · obtain ⟨_, rfl⟩ := Prod.mk.inj (Except.ok.inj collected)
    exact free
  · obtain ⟨_, rfl⟩ := Prod.mk.inj (Except.ok.inj collected)
    simp only [addressLease] at free ⊢
    simp [Std.ExtTreeMap.getElem?_filter, free]

end LeaseTable

namespace AddressAllocator

open LeaseTable

variable {allocator : AddressAllocator} {table next : LeaseTable}
variable {deploymentId replicaId : String} {used : List Ipv4Addr} {offsets : List ℕ}

/-- For a deployment without a lease, the search for an address ends with a lease of an
address that nobody holds, or fails and changes nothing. -/
theorem claimFirst_cases
    (free : table.addressLease deploymentId = none)
    (searched : claimFirst allocator used deploymentId replicaId table offsets =
      (result, next)) :
    (∃ error, result = .error error ∧ next = table) ∨
      ∃ address, address ∉ table.usedAddresses ∧
        result = .ok ⟨deploymentId, replicaId, address, .active, none⟩ ∧
        next = table.put deploymentId ⟨deploymentId, replicaId, address, .active, none⟩ := by
  induction offsets with
  | nil =>
      obtain ⟨rfl, rfl⟩ := Prod.mk.inj searched
      exact Or.inl ⟨_, rfl, rfl⟩
  | cons offset offsets inductionHypothesis =>
      unfold claimFirst at searched
      split at searched
      · exact inductionHypothesis searched
      · rename_i address _
        split at searched
        · exact inductionHypothesis searched
        · by_cases held : address ∈ table.usedAddresses
          · simp only [claimAddressLease, free, if_pos held] at searched
            obtain ⟨rfl, rfl⟩ := Prod.mk.inj searched
            exact Or.inl ⟨_, rfl, rfl⟩
          · simp only [claimAddressLease, free, if_neg held, addressLease_insert,
              if_true] at searched
            obtain ⟨rfl, rfl⟩ := Prod.mk.inj searched
            exact Or.inr ⟨address, held, rfl, rfl⟩

/-- For a deployment without a lease, the search for an address ends with an active
lease or leaves the deployment without one. -/
theorem claimFirst_of_free
    (free : table.addressLease deploymentId = none)
    (searched : claimFirst allocator used deploymentId replicaId table offsets =
      (result, next)) :
    (∃ lease, result = .ok lease ∧ next.Leased deploymentId) ∨
      (∃ error, result = .error error ∧ next.addressLease deploymentId = none) := by
  rcases claimFirst_cases free searched with ⟨error, rfl, rfl⟩ | ⟨address, _, rfl, rfl⟩
  · exact Or.inr ⟨error, rfl, free⟩
  · exact Or.inl ⟨_, rfl, _, by rw [addressLease_put, if_pos rfl], rfl⟩

/-- Allocation gives a deployment without a lease an active lease, or fails and
leaves it without one. -/
theorem allocate_of_free
    (free : table.addressLease deploymentId = none)
    (allocated : allocator.allocate table deploymentId replicaId timestamp =
      (result, next)) :
    (∃ lease, result = .ok lease ∧ next.Leased deploymentId) ∨
      (∃ error, result = .error error ∧ next.addressLease deploymentId = none) := by
  unfold allocate at allocated
  split at allocated
  · obtain ⟨rfl, rfl⟩ := Prod.mk.inj allocated
    exact Or.inr ⟨_, rfl, free⟩
  · rename_i collected
    have stillFree := collectExpiredAddressLeases_free free collected
    simp only [stillFree] at allocated
    exact claimFirst_of_free stillFree allocated

end AddressAllocator

end Agent
end Jiji
