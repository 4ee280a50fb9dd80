import Jiji.Agent.Leases
import Jiji.Agent.StoreInvariant

/-!
# The agent's control interface

The operator's tool talks to an agent through requests.  A request may carry an
idempotency key; the agent then keeps the result under the key, an error as well
as a response, and answers every later request with the same key from there.

An error's message is a fixed text or the display of the error that caused it.
-/

namespace Jiji
namespace Agent

open Network Replication

inductive ErrorCode
  | unauthorized
  | requestTooLarge
  | busy
  | notFound
  | invalid
  | internal
  deriving DecidableEq, Repr

/-- What the text of an error is made from. -/
inductive ApiMessage
  | text (message : String)
  | store (error : StoreError)
  | membership (error : MembershipError)
  | lease (error : LeaseError)
  | network (error : NetworkPlanError)
  deriving DecidableEq

structure ApiError where
  code : ErrorCode
  message : ApiMessage
  deriving DecidableEq

namespace ApiError

/-- A request that its sender got wrong. -/
def invalid (message : String) : ApiError := ⟨.invalid, .text message⟩

/-- A failure of the store. -/
def internal (error : StoreError) : ApiError := ⟨.internal, .store error⟩

end ApiError

/-- The fields of a request to commit one state of a deployment. -/
structure CatalogCommit where
  service : String
  replicaId : String
  deploymentId : String
  address : String
  ports : List (BitVec 16)
  image : String
  state : DeploymentState
  health : HealthState
  deriving DecidableEq, Repr

inductive RequestBody
  | compact
  | catalogList
  | allocateAddress (deploymentId replicaId subnet : String) (reserved : List String)
      (timestamp : ℕ)
  | releaseAddress (deploymentId : String) (timestamp : ℕ)
  | desiredCommit (service : String) (scaleOverride : Option ℕ)
  | desiredRead (service : String)
  | catalogCommit (commit : CatalogCommit)
  | imageRetentionList
  deriving DecidableEq, Repr

/-- How many images of a service's repository are kept. -/
structure ImageRetentionSpec where
  service : String
  repo : String
  retain : ℕ
  deriving DecidableEq, Repr

inductive ResponseBody
  | compacted (result : CompactionResult)
  | catalogList (records : List CatalogRecord)
  | addressLease (deploymentId replicaId address state : String)
  | addressReleased (released : Bool)
  | desiredState (record : Option DesiredStateRecord)
  | catalogCommitted (record : CatalogRecord)
  | imageRetentionSpecs (specs : List ImageRetentionSpec)
  deriving DecidableEq, Repr

abbrev ApiResult := Except ApiError ResponseBody

/-- The tables that requests work on, and the node's own identity. -/
structure AgentApi where
  store : AgentStore
  leases : LeaseTable
  responses : Std.ExtTreeMap String ApiResult
  retentionSpecs : List ImageRetentionSpec
  catalogIdentity : Option NodeIdentity

def unparsableAddress : ApiError := .invalid "invalid IPv4 address syntax"

def noLocalMember : ApiError := .invalid "local node has no active membership record"

def fencedReplica : ApiError := .invalid "replica is fenced to a different owner"

namespace AgentStore

variable (hash : ContentHash) (identity : NodeIdentity) (usedBytes : ℕ)

/-- The record that a commit of the desired state of a service writes. -/
def nextDesired
    (store : AgentStore)
    (author : MembershipRecord)
    (service : String)
    (scaleOverride : Option ℕ) : DesiredStateRecord where
  projectId := identity.projectId
  recoveryEpoch := identity.recoveryEpoch
  protocolVersion := desiredProtocolVersion
  schemaVersion := desiredSchemaVersion
  service := service
  scaleOverride := scaleOverride
  revision := ((store.desiredState service).map fun current => current.revision + 1).getD 1
  authorNodeId := identity.nodeId
  authorEpoch := author.ownerEpoch

/-- Write the next revision of the desired state of a service. -/
def desiredCommit (store : AgentStore) (service : String) (scaleOverride : Option ℕ) :
    Except ApiError (DesiredStateRecord × AgentStore) :=
  match MembershipView.fromRecords hash.membership store.membershipOperations
      identity.scope with
  | .error error => .error ⟨.internal, .membership error⟩
  | .ok membership =>
      match MembershipView.get membership identity.nodeId with
      | none => .error noLocalMember
      | some author =>
          let record := store.nextDesired identity author service scaleOverride
          match store.applyDesired hash identity.scope usedBytes membership record
              .localNode with
          | .error error => .error (.internal error)
          | .ok (_, next) => .ok (record, next)

/-- The revision after the largest one of the records of a replica. -/
def nextCatalogRevision (store : AgentStore) (replicaId : String) : ℕ :=
  min (((store.latestCatalog.filter fun record => record.replicaId = replicaId).map
    CatalogRecord.revision).max?.getD 0 + 1) (2 ^ 64 - 1)

/-- Another owner has a record of the replica that is at least as recent. -/
def fencedToOther (store : AgentStore) (owner : MembershipRecord) (replicaId : String) :
    Bool :=
  store.latestCatalog.any fun record =>
    record.replicaId = replicaId && record.ownerNodeId ≠ identity.nodeId &&
      owner.ownerEpoch ≤ record.ownerEpoch

/-- The record that a commit to the catalog writes. -/
def nextCatalog
    (store : AgentStore)
    (owner : MembershipRecord)
    (address : Ipv4Addr)
    (commit : CatalogCommit) : CatalogRecord where
  projectId := identity.projectId
  recoveryEpoch := identity.recoveryEpoch
  protocolVersion := catalogProtocolVersion
  schemaVersion := catalogSchemaVersion
  service := commit.service
  replicaId := commit.replicaId
  ownerNodeId := identity.nodeId
  ownerEpoch := owner.ownerEpoch
  revision := store.nextCatalogRevision commit.replicaId
  deploymentId := commit.deploymentId
  address := address
  ports := commit.ports
  image := commit.image
  state := commit.state
  health := commit.health

/-- Write the next revision of a replica's deployment. -/
def catalogCommit (store : AgentStore) (commit : CatalogCommit) :
    Except ApiError (CatalogRecord × AgentStore) :=
  match Ipv4Addr.parse commit.address.toList with
  | none => .error unparsableAddress
  | some address =>
      match MembershipView.fromRecords hash.membership store.membershipOperations
          identity.scope with
      | .error error => .error ⟨.internal, .membership error⟩
      | .ok membership =>
          match MembershipView.get membership identity.nodeId with
          | none => .error noLocalMember
          | some owner =>
              if store.fencedToOther identity owner commit.replicaId then
                .error fencedReplica
              else
                let record := store.nextCatalog identity owner address commit
                match store.applyCatalog hash identity.scope usedBytes membership record
                    .localNode with
                | .error error => .error (.internal error)
                | .ok (_, next) => .ok (record, next)

end AgentStore

namespace LeaseTable

/-- Serve a request for an address. -/
def handleAllocate
    (table : LeaseTable)
    (deploymentId replicaId subnet : String)
    (reserved : List String)
    (timestamp : ℕ) : ApiResult × LeaseTable :=
  match Ipv4Cidr.fromStr subnet with
  | .error error => (.error ⟨.invalid, .network error⟩, table)
  | .ok subnet =>
      match reserved.mapM fun text => Ipv4Addr.parse text.toList with
      | none => (.error unparsableAddress, table)
      | some reserved =>
          match (AddressAllocator.new subnet reserved).allocate table deploymentId replicaId
              timestamp with
          | (.error error, next) => (.error ⟨.invalid, .lease error⟩, next)
          | (.ok lease, next) =>
              (.ok (.addressLease lease.deploymentId lease.replicaId lease.address.display
                lease.state.column), next)

/-- Serve a request to release an address. -/
def handleRelease (table : LeaseTable) (deploymentId : String) (timestamp : ℕ) :
    ApiResult × LeaseTable :=
  match table.quarantineAddressLease deploymentId
      (min (timestamp + AddressAllocator.defaultQuarantineSeconds) (2 ^ 64 - 1)) with
  | .error error => (.error (.internal error), table)
  | .ok (released, next) => (.ok (.addressReleased released), next)

end LeaseTable

namespace AgentApi

variable (hash : ContentHash) (usedBytes : ℕ)

/-- Serve one request. -/
def handle (api : AgentApi) : RequestBody → ApiResult × AgentApi
  | .compact =>
      let (result, store) := api.store.compactOperations hash
      (.ok (.compacted result), { api with store := store })
  | .catalogList => (.ok (.catalogList api.store.latestCatalog), api)
  | .allocateAddress deploymentId replicaId subnet reserved timestamp =>
      let (result, leases) :=
        api.leases.handleAllocate deploymentId replicaId subnet reserved timestamp
      (result, { api with leases := leases })
  | .releaseAddress deploymentId timestamp =>
      let (result, leases) := api.leases.handleRelease deploymentId timestamp
      (result, { api with leases := leases })
  | .desiredRead service => (.ok (.desiredState (api.store.desiredState service)), api)
  | .desiredCommit service scaleOverride =>
      match api.catalogIdentity with
      | none => (.error (.invalid "desired-state identity is not configured"), api)
      | some identity =>
          match api.store.desiredCommit hash identity usedBytes service scaleOverride with
          | .error error => (.error error, api)
          | .ok (record, store) =>
              (.ok (.desiredState (some record)), { api with store := store })
  | .catalogCommit commit =>
      match api.catalogIdentity with
      | none => (.error (.invalid "catalog identity is not configured"), api)
      | some identity =>
          match api.store.catalogCommit hash identity usedBytes commit with
          | .error error => (.error error, api)
          | .ok (record, store) =>
              (.ok (.catalogCommitted record), { api with store := store })
  | .imageRetentionList => (.ok (.imageRetentionSpecs api.retentionSpecs), api)

/-- Serve a request once for each idempotency key. -/
def handleIdempotent (api : AgentApi) (key : Option String) (body : RequestBody) :
    ApiResult × AgentApi :=
  match key with
  | none => api.handle hash usedBytes body
  | some key =>
      match api.responses[key]? with
      | some cached => (cached, api)
      | none =>
          let (result, next) := api.handle hash usedBytes body
          (result, { next with responses := next.responses.insert key result })

end AgentApi

end Agent
end Jiji
