import Jiji.Agent.Catalog
import Jiji.Agent.Desired

/-!
# The agent's store

The store keeps three ledgers in one database: an operation log and a table of
winning records for membership, catalog and desired state.  Each apply function
rebuilds a view from its log, consults it, and then writes the operation and,
when the record won, its row of the table in one transaction.

The number of bytes that the database occupies is an input of every write, and
a table row holds owner epochs and revisions as signed 64-bit integers.
-/

namespace Jiji
namespace Agent

open Replication

/-- The content hashes of the three kinds of records. -/
structure ContentHash where
  membership : MembershipRecord → String
  catalog : CatalogRecord → String
  desired : DesiredStateRecord → String

inductive StoreError
  | database
  | membership (error : MembershipError)
  | catalog (error : CatalogError)
  | desired (error : DesiredError)
  | quotaExceeded (usedBytes quotaBytes : ℕ)
  deriving DecidableEq, Repr

/-- The number of operations that a compaction removed. -/
structure CompactionResult where
  membershipRemoved : ℕ
  catalogRemoved : ℕ
  desiredRemoved : ℕ
  deriving DecidableEq, Repr

/-- The replicated tables of the database, with the quota of the open handle. -/
structure AgentStore where
  softQuotaBytes : Option ℕ
  membership : Ledger String MembershipRecord
  catalog : Ledger String CatalogRecord
  desired : Ledger String DesiredStateRecord

/-- Integers that a column of the database can hold. -/
def fitsColumn (value : ℕ) : Bool := value < 2 ^ 63

namespace AgentStore

/-- A store on a fresh database. -/
def empty : AgentStore where
  softQuotaBytes := none
  membership := .empty
  catalog := .empty
  desired := .empty

/-- Open the database of a store again. -/
def reopen (store : AgentStore) : AgentStore := { store with softQuotaBytes := none }

def setSoftQuotaBytes (store : AgentStore) (quotaBytes : Option ℕ) : AgentStore :=
  { store with softQuotaBytes := quotaBytes }

/-- Refuse new operations once the database has grown to its quota. -/
def ensureReplicationCapacity (store : AgentStore) (usedBytes : ℕ) :
    Except StoreError Unit :=
  match store.softQuotaBytes with
  | none => .ok ()
  | some quotaBytes =>
      if quotaBytes ≤ usedBytes then .error (.quotaExceeded usedBytes quotaBytes)
      else .ok ()

def membershipOperations (store : AgentStore) : List MembershipRecord :=
  store.membership.operations

def catalogOperations (store : AgentStore) : List CatalogRecord :=
  store.catalog.operations

def desiredOperations (store : AgentStore) : List DesiredStateRecord :=
  store.desired.operations

/-- The winning record of every known node, by node identifier. -/
def latestMembership (store : AgentStore) : List MembershipRecord :=
  valuesOf store.membership.winners

/-- The order in which the catalog is read: by replica, then by deployment. -/
abbrev CatalogOrder (left right : CatalogRecord) : Prop :=
  toLex (left.replicaId, left.deploymentId) ≤ toLex (right.replicaId, right.deploymentId)

/-- The winning record of every deployment, by replica and deployment. -/
def latestCatalog (store : AgentStore) : List CatalogRecord :=
  (valuesOf store.catalog.winners).insertionSort CatalogOrder

/-- The winning desired-state record of every service, by service. -/
def desiredSnapshotOperations (store : AgentStore) : List DesiredStateRecord :=
  valuesOf store.desired.winners

def desiredState (store : AgentStore) (service : String) : Option DesiredStateRecord :=
  store.desired.winners[service]?

/-- A membership row fits its columns and keeps the server names of the active
rows distinct. -/
def membershipStorable
    (winners : Std.ExtTreeMap String MembershipRecord)
    (record : MembershipRecord) : Bool :=
  fitsColumn record.ownerEpoch && fitsColumn record.revision &&
    (valuesOf winners).all fun row =>
      !(record.state = .active ∧ row.state = .active ∧ row.nodeId ≠ record.nodeId ∧
        row.serverName = record.serverName)

def catalogStorable
    (_ : Std.ExtTreeMap String CatalogRecord)
    (record : CatalogRecord) : Bool :=
  fitsColumn record.ownerEpoch && fitsColumn record.revision

def desiredStorable
    (_ : Std.ExtTreeMap String DesiredStateRecord)
    (record : DesiredStateRecord) : Bool :=
  fitsColumn record.revision

variable (hash : ContentHash) (scope : MembershipScope)

/-- The membership that a store's log describes. -/
def membershipView (store : AgentStore) : Except StoreError MembershipView :=
  (MembershipView.fromRecords hash.membership store.membershipOperations scope).mapError
    .membership

/-- Verify and store one membership record. -/
def applyMembership (usedBytes : ℕ) (store : AgentStore) (record : MembershipRecord) :
    Except StoreError (Outcome × AgentStore) :=
  (Ledger.ingest MembershipRecord.nodeId hash.membership membershipStorable .database
    (store.ensureReplicationCapacity usedBytes)
    (fun log record =>
      (Ledger.judge (fun log => MembershipView.fromRecords hash.membership log scope)
        (MembershipView.apply hash.membership scope) log record).mapError .membership)
    store.membership record).map
      fun result => (result.1, { store with membership := result.2 })

/-- Verify against a membership and store one catalog record. -/
def applyCatalog
    (usedBytes : ℕ)
    (membership : MembershipView)
    (store : AgentStore)
    (record : CatalogRecord)
    (provenance : RecordProvenance) : Except StoreError (Outcome × AgentStore) :=
  (Ledger.ingest CatalogRecord.deploymentId hash.catalog catalogStorable .database
    (store.ensureReplicationCapacity usedBytes)
    (fun log record =>
      (Ledger.judge
        (fun log => CatalogView.fromRecords hash.catalog
          (log.map fun record => (record, .verified)) scope membership)
        (CatalogView.apply hash.catalog provenance scope membership) log record).mapError
          .catalog)
    store.catalog record).map
      fun result => (result.1, { store with catalog := result.2 })

/-- Verify against a membership and store one desired-state record. -/
def applyDesired
    (usedBytes : ℕ)
    (membership : MembershipView)
    (store : AgentStore)
    (record : DesiredStateRecord)
    (provenance : RecordProvenance) : Except StoreError (Outcome × AgentStore) :=
  (Ledger.ingest DesiredStateRecord.service hash.desired desiredStorable .database
    (store.ensureReplicationCapacity usedBytes)
    (fun log record =>
      (Ledger.judge
        (fun log => DesiredStateView.fromRecords hash.desired
          (log.map fun record => (record, .verified)) scope membership)
        (DesiredStateView.apply hash.desired provenance scope membership) log
          record).mapError .desired)
    store.desired record).map
      fun result => (result.1, { store with desired := result.2 })

/-- Delete the operations that no winning row refers to. -/
def compactOperations (store : AgentStore) : CompactionResult × AgentStore :=
  let next : AgentStore :=
    { store with
      membership := store.membership.compact hash.membership
      catalog := store.catalog.compact hash.catalog
      desired := store.desired.compact hash.desired }
  let result : CompactionResult :=
    { membershipRemoved :=
        store.membership.operations.length - next.membership.operations.length
      catalogRemoved := store.catalog.operations.length - next.catalog.operations.length
      desiredRemoved := store.desired.operations.length - next.desired.operations.length }
  (result, next)

end AgentStore

end Agent
end Jiji
