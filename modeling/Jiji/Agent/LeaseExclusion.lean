import Jiji.Agent.Discovery

/-!
# Exclusive addresses

An address that an agent has handed to a deployment belongs to the deployment until its
release is served.  This module follows a lease table through requests, discovery passes
and collections, together with the addresses that were handed out and not yet released.
-/

namespace Jiji
namespace Agent

open Network Replication Control

/-- A lease table, with each address that was handed out and not yet released. -/
structure Tenancy where
  table : LeaseTable
  granted : List (String × String)

inductive TenancyEvent
  | allocate (deploymentId replicaId subnet : String) (reserved : List String) (timestamp : ℕ)
  | release (deploymentId : String) (timestamp : ℕ)
  | recover (observations : List Observation)
  | record (observations : List Observation) (timestamp : String)
  | collect (timestamp : ℕ)

namespace Tenancy

def advance (tenancy : Tenancy) : TenancyEvent → Option Tenancy
  | .allocate deploymentId replicaId subnet reserved timestamp =>
      match tenancy.table.handleAllocate deploymentId replicaId subnet reserved timestamp with
      | (.ok (.addressLease _ _ address _), table) =>
          some ⟨table, (deploymentId, address) :: tenancy.granted⟩
      | (_, table) => some ⟨table, tenancy.granted⟩
  | .release deploymentId timestamp =>
      match tenancy.table.handleRelease deploymentId timestamp with
      | (.ok _, table) =>
          some ⟨table, tenancy.granted.filter fun grant => grant.1 ≠ deploymentId⟩
      | (.error _, table) => some ⟨table, tenancy.granted⟩
  | .recover observations =>
      some ⟨(tenancy.table.recoverLabeledLeases observations).2, tenancy.granted⟩
  | .record observations timestamp =>
      some ⟨tenancy.table.recordObservations observations timestamp, tenancy.granted⟩
  | .collect timestamp =>
      match tenancy.table.collectExpiredAddressLeases timestamp with
      | .error _ => some tenancy
      | .ok (_, table) => some ⟨table, tenancy.granted⟩

/-- A request for an address does not meet a lease of its deployment in quarantine that it
does not collect. -/
def Renewed (tenancy : Tenancy) : TenancyEvent → Prop
  | .allocate deploymentId _ _ _ timestamp =>
      ∀ lease, tenancy.table.addressLease deploymentId = some lease →
        lease.state = .quarantined →
        tenancy.table.lastDiscoveryAt ≠ none ∧ tenancy.table.expired timestamp lease = true
  | _ => True

end Tenancy

namespace LeaseTable

variable {table next : LeaseTable} {deploymentId : String}

/-- No two deployments lease one address. -/
def Unshared (table : LeaseTable) : Prop :=
  ∀ first second lease other, table.addressLease first = some lease →
    table.addressLease second = some other → lease.address = other.address → first = second

/-- A lease of the address that a deployment had, or that nobody had, is not shared. -/
theorem Unshared.put
    (unshared : table.Unshared)
    (own : (∃ before, table.addressLease deploymentId = some before ∧
        lease.address = before.address) ∨
      lease.address ∉ table.usedAddresses) :
    (table.put deploymentId lease).Unshared := by
  have apart : ∀ holder other, table.addressLease holder = some other →
      lease.address = other.address → holder = deploymentId := by
    intro holder other stands same
    rcases own with ⟨before, held, address⟩ | unused
    · exact unshared holder deploymentId other before stands held (same.symm.trans address)
    · exact absurd (mem_usedAddresses.mpr ⟨holder, other, stands, same.symm⟩) unused
  intro first second left right leftStands rightStands same
  rw [addressLease_put] at leftStands rightStands
  split at leftStands <;> split at rightStands
  · simp_all
  · rename_i here elsewhere
    cases leftStands
    exact absurd (apart second right rightStands same) elsewhere
  · rename_i elsewhere here
    cases rightStands
    exact absurd (apart first left leftStands same.symm) elsewhere
  · exact unshared first second left right leftStands rightStands same

/-- A collection shares no lease. -/
theorem Unshared.collect
    (unshared : table.Unshared)
    (collection : table.collectExpiredAddressLeases timestamp = .ok (removed, next)) :
    next.Unshared := by
  intro first second left right leftStands rightStands same
  exact unshared first second left right ((addressLease_of_collect collection).mp leftStands).1
    ((addressLease_of_collect collection).mp rightStands).1 same

/-- A deployment holds an address with an active lease. -/
def Holds (table : LeaseTable) (deploymentId address : String) : Prop :=
  ∃ lease, table.addressLease deploymentId = some lease ∧ lease.state = .active ∧
    lease.address.display = address

variable {address : String}

/-- An active lease is not collected. -/
theorem Holds.collect
    (holds : table.Holds deploymentId address)
    (collection : table.collectExpiredAddressLeases timestamp = .ok (removed, next)) :
    next.Holds deploymentId address := by
  obtain ⟨lease, stands, active, shown⟩ := holds
  refine ⟨lease, (addressLease_of_collect collection).mpr ⟨stands, Or.inr ?_⟩, active, shown⟩
  simp [expired, active]

/-- A lease that is written keeps what other deployments hold, and what its own one holds if
it is active and has the same address. -/
theorem Holds.put
    (holds : table.Holds holder address)
    (own : holder = deploymentId → lease.state = .active ∧
      ∀ before, table.addressLease deploymentId = some before →
        lease.address = before.address) :
    (table.put deploymentId lease).Holds holder address := by
  obtain ⟨before, stands, active, shown⟩ := holds
  by_cases same : holder = deploymentId
  · subst same
    obtain ⟨nowActive, address⟩ := own rfl
    refine ⟨lease, by rw [addressLease_put, if_pos rfl], nowActive, ?_⟩
    rw [address before stands, shown]
  · exact ⟨before, by rw [addressLease_put, if_neg same, stands], active, shown⟩

end LeaseTable

namespace Tenancy

/-- No lease is shared, and every address that was handed out is held. -/
structure Exclusive (tenancy : Tenancy) : Prop where
  unshared : tenancy.table.Unshared
  held : ∀ grant ∈ tenancy.granted, tenancy.table.Holds grant.1 grant.2

variable {table next : LeaseTable} {granted : List (String × String)}
variable {deploymentId : String} {timestamp : ℕ}

theorem Exclusive.collect
    (exclusive : Exclusive ⟨table, granted⟩)
    (collection : table.collectExpiredAddressLeases timestamp = .ok (removed, next)) :
    Exclusive ⟨next, granted⟩ :=
  ⟨exclusive.unshared.collect collection,
    fun grant member => (exclusive.held grant member).collect collection⟩

/-- A recovered lease takes no address from another deployment. -/
theorem Exclusive.recoverAddressLease
    (exclusive : Exclusive ⟨table, granted⟩)
    (claim : LeaseClaim) :
    Exclusive ⟨(table.recoverAddressLease claim).2, granted⟩ := by
  rcases LeaseTable.recoverAddressLease_cases table claim with same | ⟨lease, put, active, own⟩
  · rw [same]
    exact exclusive
  · rw [put]
    refine ⟨exclusive.unshared.put (own.imp_right And.right), fun grant member =>
      (exclusive.held grant member).put fun _ => ⟨active, fun before stands => ?_⟩⟩
    rcases own with ⟨other, held, address⟩ | ⟨free, _⟩
    · rw [address, Option.some.inj (held.symm.trans stands)]
    · rw [free] at stands
      cases stands

/-- A grant to a deployment that has a lease, or that gets one of an unused address. -/
theorem Exclusive.allocate
    {replicaId subnet : String}
    {result : ApiResult}
    (exclusive : Exclusive ⟨table, granted⟩)
    (renewed : Tenancy.Renewed ⟨table, granted⟩
      (.allocate deploymentId replicaId subnet reserved timestamp))
    (handled : table.handleAllocate deploymentId replicaId subnet reserved timestamp =
      (result, next)) :
    Exclusive ⟨next, granted⟩ ∧
      ∀ holder replica address state, result = .ok (.addressLease holder replica address state) →
        next.Holds deploymentId address := by
  rcases LeaseTable.handleAllocate_cases handled with
    ⟨_, rfl, rfl | ⟨_, collection⟩⟩ |
    ⟨_, collected, lease, collection, rfl, ⟨stands, rfl⟩ | ⟨free, unused, active, rfl⟩⟩
  · exact ⟨exclusive, by simp⟩
  · exact ⟨exclusive.collect collection, by simp⟩
  · refine ⟨exclusive.collect collection, ?_⟩
    rintro holder replica address state same
    obtain ⟨before, uncollected⟩ := (LeaseTable.addressLease_of_collect collection).mp stands
    cases same
    refine ⟨lease, stands, ?_, rfl⟩
    cases quarantined : lease.state with
    | active => rfl
    | quarantined =>
        obtain ⟨discovered, expired⟩ := renewed lease before quarantined
        rcases uncollected with undiscovered | unexpired
        · exact absurd undiscovered discovered
        · exact absurd (expired.symm.trans unexpired) (by decide)
  · have kept := exclusive.collect collection
    refine ⟨⟨kept.unshared.put (Or.inr unused), fun grant member =>
      (kept.held grant member).put fun _ => ⟨active, fun before stands => ?_⟩⟩, ?_⟩
    · rw [free] at stands
      cases stands
    · rintro holder replica address state same
      cases same
      exact ⟨lease, by rw [LeaseTable.addressLease_put, if_pos rfl], active, rfl⟩

/-- A release takes from its own deployment only. -/
theorem Exclusive.release
    (exclusive : Exclusive ⟨table, granted⟩)
    (handled : table.handleRelease deploymentId timestamp = (result, next)) :
    Exclusive ⟨next, granted.filter fun grant => grant.1 ≠ deploymentId⟩ := by
  have others : ∀ grant ∈ granted.filter (fun grant => grant.1 ≠ deploymentId),
      grant ∈ granted ∧ grant.1 ≠ deploymentId := by
    intro grant member
    obtain ⟨before, different⟩ := List.mem_filter.mp member
    exact ⟨before, of_decide_eq_true different⟩
  rcases LeaseTable.handleRelease_cases handled with
    ⟨_, _, rfl⟩ | ⟨_, _, _, rfl | ⟨before, lease, stands, address, rfl⟩⟩
  · exact ⟨exclusive.unshared, fun grant member => exclusive.held grant (others grant member).1⟩
  · exact ⟨exclusive.unshared, fun grant member => exclusive.held grant (others grant member).1⟩
  · refine ⟨exclusive.unshared.put (Or.inl ⟨before, stands, address⟩), fun grant member => ?_⟩
    obtain ⟨old, different⟩ := others grant member
    exact (exclusive.held grant old).put fun same => absurd same different

/-- Every step keeps the addresses that were handed out exclusive. -/
theorem Exclusive.advance
    {tenancy reached : Tenancy}
    (exclusive : tenancy.Exclusive)
    (renewed : tenancy.Renewed event)
    (advanced : tenancy.advance event = some reached) :
    reached.Exclusive := by
  cases event with
  | allocate deploymentId replicaId subnet reserved timestamp =>
      simp only [Tenancy.advance] at advanced
      split at advanced
      · rename_i handled
        obtain rfl := Option.some.inj advanced
        obtain ⟨kept, granted⟩ := exclusive.allocate renewed handled
        refine ⟨kept.unshared, fun grant member => ?_⟩
        rcases List.mem_cons.mp member with rfl | old
        · exact granted _ _ _ _ rfl
        · exact kept.held grant old
      · rename_i handled
        obtain rfl := Option.some.inj advanced
        exact (exclusive.allocate renewed handled).1
  | release deploymentId timestamp =>
      simp only [Tenancy.advance] at advanced
      split at advanced
      · rename_i handled
        obtain rfl := Option.some.inj advanced
        exact exclusive.release handled
      · rename_i handled
        obtain rfl := Option.some.inj advanced
        rcases LeaseTable.handleRelease_cases handled with ⟨_, _, rfl⟩ | ⟨_, impossible, _⟩
        · exact exclusive
        · cases impossible
  | recover observations =>
      obtain rfl := Option.some.inj advanced
      refine LeaseTable.recoverLabeledLeases_induction
        (fun table => Exclusive ⟨table, tenancy.granted⟩) observations exclusive ?_
      exact fun _ claim kept _ => kept.recoverAddressLease claim
  | record observations timestamp =>
      obtain rfl := Option.some.inj advanced
      exact ⟨exclusive.unshared, exclusive.held⟩
  | collect timestamp =>
      simp only [Tenancy.advance] at advanced
      split at advanced
      · obtain rfl := Option.some.inj advanced
        exact exclusive
      · rename_i collection
        obtain rfl := Option.some.inj advanced
        exact exclusive.collect collection

end Tenancy

/-- The lease table as a machine. -/
def tenancyMachine : Machine Tenancy TenancyEvent where
  advance := Tenancy.advance

/-- As long as no request for an address meets a lease of its deployment in quarantine that
it does not collect, two deployments never have the same address at once: an address that
was handed out is handed to no other deployment before it is released. -/
theorem granted_addresses_exclusive
    (table : LeaseTable)
    (unshared : table.Unshared)
    (tenancy : Tenancy)
    (reaches : tenancyMachine.Reaches Tenancy.Renewed ⟨table, []⟩ tenancy)
    (first second address : String)
    (firstGranted : (first, address) ∈ tenancy.granted)
    (secondGranted : (second, address) ∈ tenancy.granted) :
    first = second := by
  have exclusive : tenancy.Exclusive := by
    refine reaches.invariant ⟨unshared, by simp⟩ ?_
    exact fun _ _ _ exclusive renewed advanced => exclusive.advance renewed advanced
  obtain ⟨lease, stands, _, shown⟩ := exclusive.held _ firstGranted
  obtain ⟨other, otherStands, _, otherShown⟩ := exclusive.held _ secondGranted
  exact exclusive.unshared first second lease other stands otherStands
    (Ipv4Addr.display_injective (shown.trans otherShown.symm))

namespace Tenancy

/-- The condition on a step, decided. -/
def renewed (tenancy : Tenancy) : TenancyEvent → Bool
  | .allocate deploymentId _ _ _ timestamp =>
      (tenancy.table.addressLease deploymentId).all fun lease =>
        lease.state = .active ||
          tenancy.table.lastDiscoveryAt.isSome && tenancy.table.expired timestamp lease
  | _ => true

theorem renewed_of_renewed
    (tenancy : Tenancy)
    (event : TenancyEvent)
    (passed : tenancy.renewed event = true) :
    tenancy.Renewed event := by
  cases event with
  | allocate deploymentId replicaId subnet reserved timestamp =>
      intro lease stands quarantined
      simp only [renewed, stands, Option.all_some, quarantined, reduceCtorEq, decide_false,
        Bool.false_or, Bool.and_eq_true] at passed
      exact ⟨Option.isSome_iff_ne_none.mp passed.1, passed.2⟩
  | _ => trivial

/-- A table without leases from which nothing was handed out. -/
def vacant : Tenancy := ⟨.empty, []⟩

/-- A deployment gives its address back, and another one gets it after the quarantine. -/
def handedOn : List TenancyEvent :=
  [.allocate "d" "r" "10.9.0.0/29" [] 0, .allocate "e" "r" "10.9.0.0/29" [] 0,
    .release "d" 0, .record [] "5", .allocate "f" "r" "10.9.0.0/29" [] 40]

/-- A deployment asks for an address again while its lease is in quarantine. -/
def askedInQuarantine : List TenancyEvent :=
  [.allocate "d" "r" "10.9.0.0/29" [] 0, .release "d" 0, .record [] "5",
    .allocate "d" "r" "10.9.0.0/29" [] 10, .allocate "e" "r" "10.9.0.0/29" [] 40]

end Tenancy

theorem granted_addresses_exclusive_handedOn :
    ∃ tenancy,
      tenancyMachine.Reaches Tenancy.Renewed Tenancy.vacant tenancy ∧
      tenancy.granted = [("f", "10.9.0.1"), ("e", "10.9.0.2")] ∧
      ∀ holder, (holder, "10.9.0.1") ∈ tenancy.granted → holder = "f" := by
  have ran : ((tenancyMachine.checked Tenancy.renewed).run Tenancy.vacant
      Tenancy.handedOn).map Tenancy.granted =
        some [("f", "10.9.0.1"), ("e", "10.9.0.2")] := by
    decide +kernel
  obtain ⟨tenancy, reached, granted⟩ := Option.map_eq_some_iff.mp ran
  have reaches := Machine.reaches_of_checked reached Tenancy.renewed_of_renewed
  have unshared : LeaseTable.empty.Unshared := by
    intro first second lease other stands
    simp [LeaseTable.addressLease, LeaseTable.empty] at stands
  refine ⟨tenancy, reaches, granted, fun holder member => ?_⟩
  exact granted_addresses_exclusive .empty unshared tenancy reaches holder "f" "10.9.0.1" member
    (by rw [granted]; exact List.mem_cons_self)

/-- A deployment that asks for its address again while it is in quarantine is told the
address, and another deployment gets it once the quarantine has ended. -/
theorem askedInQuarantine_shares_address :
    (tenancyMachine.run Tenancy.vacant Tenancy.askedInQuarantine).map Tenancy.granted =
      some [("e", "10.9.0.1"), ("d", "10.9.0.1")] := by
  decide +kernel

end Agent
end Jiji
