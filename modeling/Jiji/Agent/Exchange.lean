import Jiji.Agent.StoreInvariant
import Jiji.Replication.Batch

/-!
# Snapshot exchange between nodes

A node sends its peers a snapshot of the catalog and desired-state records that
it owns.  The receiver takes the records one after another, as coming from the
address of the connection, and stops at the first one that its store refuses;
what it took before stays.  The number of bytes that the receiver's database
occupies is given for each write of the exchange by its position.
-/

namespace Jiji
namespace Agent

open Network Replication

def maxCatalogRecords : ℕ := 4096

def maxDesiredRecords : ℕ := 1024

/-- A snapshot of the records that a node owns. -/
structure Exchange where
  projectId : String
  recoveryEpoch : ℕ
  protocolVersion : ℕ
  schemaVersion : ℕ
  operations : List CatalogRecord
  desiredOperations : List DesiredStateRecord

inductive CatalogReplicationError
  | store (error : StoreError)
  | membership (error : MembershipError)
  | snapshotTooLarge (kind : String) (records limit : ℕ)
  | wrongProject
  | recoveryEpoch
  | incompatibleVersion
  deriving DecidableEq, Repr

namespace Exchange

/-- The checks that both sides make on a snapshot as a whole. -/
def validate (exchange : Exchange) (identity : NodeIdentity) :
    Except CatalogReplicationError Unit :=
  if exchange.projectId ≠ identity.projectId then .error .wrongProject
  else if exchange.recoveryEpoch ≠ identity.recoveryEpoch then .error .recoveryEpoch
  else if exchange.protocolVersion ≠ catalogProtocolVersion ∨
      exchange.schemaVersion ≠ catalogSchemaVersion then
    .error .incompatibleVersion
  else if maxCatalogRecords < exchange.operations.length then
    .error (.snapshotTooLarge "catalog" exchange.operations.length maxCatalogRecords)
  else if maxDesiredRecords < exchange.desiredOperations.length then
    .error (.snapshotTooLarge "desired-state" exchange.desiredOperations.length
      maxDesiredRecords)
  else .ok ()

/-- The records of a store that a node sends. -/
def snapshot (store : AgentStore) (identity : NodeIdentity) : Exchange where
  projectId := identity.projectId
  recoveryEpoch := identity.recoveryEpoch
  protocolVersion := catalogProtocolVersion
  schemaVersion := catalogSchemaVersion
  operations := store.latestCatalog.filter fun record =>
    record.ownerNodeId = identity.nodeId
  desiredOperations := store.desiredSnapshotOperations.filter fun record =>
    record.authorNodeId = identity.nodeId

/-- The snapshot of a store, provided that it is small enough to send. -/
def fromStore (store : AgentStore) (identity : NodeIdentity) :
    Except CatalogReplicationError Exchange :=
  ((snapshot store identity).validate identity).map fun _ => snapshot store identity

/-- A snapshot that its sender could send passes the checks of a receiver of the
same scope. -/
theorem validate_of_fromStore
    (sent : fromStore store sender = .ok exchange)
    (sameScope : sender.scope = receiver.scope) :
    exchange = snapshot store sender ∧ exchange.validate receiver = .ok () := by
  obtain ⟨_, valid, rfl⟩ := Fallible.map_eq_ok_iff.mp sent
  obtain ⟨project, epoch⟩ := MembershipScope.mk.inj sameScope
  refine ⟨rfl, ?_⟩
  rw [← valid, validate, validate, project, epoch]

end Exchange

namespace AgentStore

variable (hash : ContentHash) (identity : NodeIdentity) (peer : SocketAddr)
variable (usedBytes : ℕ → ℕ) (membership : MembershipView)

/-- Take one catalog record of an exchange. -/
def receiveCatalog (position : ℕ) (store : AgentStore) (record : CatalogRecord) :
    Except StoreError (Outcome × AgentStore) :=
  store.applyCatalog hash identity.scope (usedBytes position) membership record (.peer peer)

/-- Take one desired-state record of an exchange. -/
def receiveDesired (position : ℕ) (store : AgentStore) (record : DesiredStateRecord) :
    Except StoreError (Outcome × AgentStore) :=
  store.applyDesired hash identity.scope (usedBytes position) membership record (.peer peer)

/-- Take the records of an exchange, the catalog first. -/
def receive (store : AgentStore) (exchange : Exchange) :
    Except StoreError Unit × AgentStore :=
  match Fallible.each (receiveCatalog hash identity peer usedBytes membership) 0 store
      exchange.operations with
  | (.error error, reached) => (.error error, reached)
  | (.ok (), reached) =>
      Fallible.each (receiveDesired hash identity peer usedBytes membership)
        exchange.operations.length reached exchange.desiredOperations

/-- Apply the exchange that a peer sent, and keep the store as far as it came. -/
def applyExchange (store : AgentStore) (exchange : Exchange) :
    Except CatalogReplicationError Unit × AgentStore :=
  match exchange.validate identity with
  | .error error => (.error error, store)
  | .ok () =>
      match MembershipView.fromRecords hash.membership store.membershipOperations
          identity.scope with
      | .error error => (.error (.membership error), store)
      | .ok membership =>
          let (result, reached) :=
            receive hash identity peer usedBytes membership store exchange
          (result.mapError .store, reached)

variable {hash : ContentHash} {identity : NodeIdentity} {peer : SocketAddr}
variable {usedBytes : ℕ → ℕ} {membership : MembershipView}
variable {store final : AgentStore} {exchange : Exchange} {position : ℕ}

/-- The rules for the catalog records of an exchange. -/
abbrev peerRules
    (hash : ContentHash)
    (identity : NodeIdentity)
    (peer : SocketAddr)
    (membership : MembershipView) : Rules String CatalogRecord Rank :=
  CatalogView.rules hash.catalog fun record =>
    record.verify (.peer peer) identity.scope membership = .ok ()

/-- An exchange that is not valid changes nothing. -/
theorem applyExchange_invalid
    (invalid : exchange.validate identity ≠ .ok ()) :
    (applyExchange hash identity peer usedBytes store exchange).2 = store := by
  unfold applyExchange
  cases checked : exchange.validate identity with
  | error error => rfl
  | ok _ => exact absurd checked invalid

/-- A valid exchange is taken as far as its records are. -/
theorem Sound.applyExchange_eq
    (sound : store.Sound hash identity.scope)
    (valid : exchange.validate identity = .ok ()) :
    ∃ membership,
      MembershipView.fromRecords hash.membership store.membershipOperations
        identity.scope = .ok membership ∧
      membership.records = store.membership.winners ∧
      applyExchange hash identity peer usedBytes store exchange =
        ((receive hash identity peer usedBytes membership store exchange).1.mapError .store,
          (receive hash identity peer usedBytes membership store exchange).2) := by
  obtain ⟨membership, rebuilt, records, _⟩ := sound.fromRecords_membership
  refine ⟨membership, rebuilt, records, ?_⟩
  simp only [applyExchange, valid, rebuilt]

/-- An exchange succeeds exactly when all of its records are taken. -/
theorem receive_ok_iff :
    (receive hash identity peer usedBytes membership store exchange).1 = .ok () ↔
      ∃ middle final,
        Fallible.Path (receiveCatalog hash identity peer usedBytes membership) 0 store
          exchange.operations middle ∧
        Fallible.Path (receiveDesired hash identity peer usedBytes membership)
          exchange.operations.length middle exchange.desiredOperations final := by
  unfold receive
  constructor
  · intro succeeds
    split at succeeds
    · simp at succeeds
    · rename_i middle catalog
      have catalogSucceeds : (Fallible.each
          (receiveCatalog hash identity peer usedBytes membership) 0 store
            exchange.operations).1 = .ok () := by
        rw [catalog]
      obtain ⟨reached, path⟩ := Fallible.each_ok_iff.mp catalogSucceeds
      rw [Fallible.each_eq_of_path path, Prod.mk.injEq] at catalog
      obtain ⟨final, desiredPath⟩ := Fallible.each_ok_iff.mp succeeds
      exact ⟨reached, final, path, catalog.2 ▸ desiredPath⟩
  · rintro ⟨middle, final, path, desiredPath⟩
    rw [Fallible.each_eq_of_path path]
    exact Fallible.each_ok_iff.mpr ⟨final, desiredPath⟩

theorem Sound.path_receiveCatalog
    (sound : store.Sound hash identity.scope)
    (path : Fallible.Path (receiveCatalog hash identity peer usedBytes membership) position
      store batch final) :
    final.Sound hash identity.scope := by
  induction path with
  | nil => exact sound
  | cons received _ inductionHypothesis =>
      exact inductionHypothesis (sound.applyCatalog received)

theorem applyDesired_frame
    (accepted : store.applyDesired hash scope used membership record provenance =
      .ok (outcome, final)) :
    final = { store with desired := final.desired } := by
  obtain ⟨_, _, equal⟩ := Fallible.map_eq_ok_iff.mp accepted
  obtain ⟨_, rfl⟩ := Prod.mk.inj equal
  rfl

/-- Taking desired-state records changes nothing else. -/
theorem path_receiveDesired_frame
    (path : Fallible.Path (receiveDesired hash identity peer usedBytes membership) position
      store batch final) :
    final = { store with desired := final.desired } := by
  induction path with
  | nil => rfl
  | cons received _ inductionHypothesis =>
      rw [inductionHypothesis, applyDesired_frame received]

/-- Applying catalog records is taking them into the catalog's ledger. -/
theorem Sound.path_applyCatalog_iff
    (sound : store.Sound hash scope) :
    Fallible.Path (fun position (store : AgentStore) record =>
        store.applyCatalog hash scope (usedBytes position) membership record provenance)
        position store batch final ↔
      ∃ ledger, Ledger.Takes
          (CatalogView.rules hash.catalog fun record =>
            record.verify provenance scope membership = .ok ())
          hash.catalog (catalogStorable ∅)
          (fun position => store.ensureReplicationCapacity (usedBytes position))
          position store.catalog batch ledger ∧
        final = { store with catalog := ledger } := by
  refine Ledger.path_iff_takes AgentStore.catalog
    (fun store ledger => { store with catalog := ledger })
    (fun reached => reached.Sound hash scope ∧ reached.softQuotaBytes = store.softQuotaBytes)
    (fun _ _ => rfl) (fun _ _ _ => rfl) (fun _ => rfl) ?_ ?_ ⟨sound, rfl⟩
  · rintro position reached record outcome next ⟨reachedSound, quota⟩
    rw [reachedSound.applyCatalog_eq_ok_iff, ensureReplicationCapacity, quota]
    rfl
  · rintro position reached record outcome next ⟨reachedSound, quota⟩ accepted
    obtain ⟨_, _, rfl⟩ := reachedSound.applyCatalog_eq_ok_iff.mp accepted
    exact ⟨reachedSound.applyCatalog accepted, quota⟩

/-- Taking catalog records is taking them into the catalog's ledger. -/
theorem Sound.path_receiveCatalog_iff
    (sound : store.Sound hash identity.scope)
    {batch : List CatalogRecord} :
    Fallible.Path (receiveCatalog hash identity peer usedBytes membership) position store
        batch final ↔
      ∃ ledger, Ledger.Takes (peerRules hash identity peer membership) hash.catalog
          (catalogStorable ∅)
          (fun position => store.ensureReplicationCapacity (usedBytes position))
          position store.catalog batch ledger ∧
        final = { store with catalog := ledger } :=
  sound.path_applyCatalog_iff

/-- The record of each deployment once earlier records of an exchange were taken. -/
def standing (hash : ContentHash) (store : AgentStore) (earlier : List CatalogRecord) :
    Slots String CatalogRecord :=
  (CatalogView.rules hash.catalog fun _ => True).overlay (slotsOf store.catalog.winners)
    earlier

/-- The guards of the catalog let a record pass. -/
structure Passes
    (hash : ContentHash)
    (slots : Slots String CatalogRecord)
    (record : CatalogRecord) : Prop where
  unfenced : ¬CatalogView.Fenced slots record
  current : ¬CatalogView.Stale slots record
  lawful : (∀ current, slots record.deploymentId = some current →
    current.order hash.catalog < record.order hash.catalog) →
      ¬CatalogView.Resurrects slots record

/-- A store whose catalog took records as far as they were admitted, and which is
otherwise the same but for its desired state. -/
structure Reaches
    (hash : ContentHash)
    (identity : NodeIdentity)
    (peer : SocketAddr)
    (usedBytes : ℕ → ℕ)
    (membership : MembershipView)
    (store : AgentStore)
    (batch taken : List CatalogRecord)
    (final : AgentStore) : Prop where
  upTo : store.catalog.TakesUpTo (peerRules hash identity peer membership) hash.catalog
    (catalogStorable ∅)
    (fun position => store.ensureReplicationCapacity (usedBytes position)) 0 batch taken
  takes : Ledger.Takes (peerRules hash identity peer membership) hash.catalog
    (catalogStorable ∅)
    (fun position => store.ensureReplicationCapacity (usedBytes position)) 0
    store.catalog taken final.catalog
  sound : final.Sound hash identity.scope
  members : final.membership = store.membership
  quota : final.softQuotaBytes = store.softQuotaBytes

section Reached

variable {batch taken : List CatalogRecord}

theorem Reaches.taken_subset
    (reaches : Reaches hash identity peer usedBytes membership store batch taken final) :
    taken ⊆ batch := by
  obtain ⟨rest, split, _⟩ := reaches.upTo
  exact fun record member => split ▸ List.mem_append_left rest member

/-- The catalog that was reached overlays the old one by the records taken, and
both are logged. -/
theorem Reaches.overlays
    (reaches : Reaches hash identity peer usedBytes membership store batch taken final)
    (sound : store.Sound hash identity.scope)
    (injective : Set.InjOn hash.catalog
      {record | record ∈ store.catalogOperations ∨ record ∈ batch}) :
    slotsOf final.catalog.winners = store.standing hash taken ∧
      ∀ record, record ∈ final.catalogOperations ↔
        record ∈ store.catalogOperations ∨ record ∈ taken := by
  obtain ⟨winners, _, logged⟩ := reaches.takes.overlays (sound.catalog.dominated rfl rfl)
    (injective.mono fun record present =>
      Or.imp_right (fun member : record ∈ taken => reaches.taken_subset member) present)
  exact ⟨winners, logged⟩

end Reached

end AgentStore

end Agent
end Jiji
