import Jiji.Agent.Membership

/-!
# The service catalog

A catalog record describes one deployment of one service replica and is owned
by a node.  A view keeps one record for each deployment.  Besides the order of
the records of a deployment it enforces a fence for each replica: no record of
an owner epoch below the largest one that a standing record of the replica has.
-/

namespace Jiji
namespace Agent

open Network Replication

def catalogProtocolVersion : ℕ := 1

def catalogSchemaVersion : ℕ := 2

inductive DeploymentState
  | candidate
  | active
  | draining
  | stopped
  | tombstoned
  deriving DecidableEq, Repr

inductive HealthState
  | unknown
  | healthy
  | unhealthy
  deriving DecidableEq, Repr

/-- What the owner of a replica says about one deployment of it. -/
structure CatalogRecord where
  projectId : String
  recoveryEpoch : ℕ
  protocolVersion : ℕ
  schemaVersion : ℕ
  service : String
  replicaId : String
  ownerNodeId : String
  ownerEpoch : ℕ
  revision : ℕ
  deploymentId : String
  address : Ipv4Addr
  ports : List (BitVec 16)
  image : String
  state : DeploymentState
  health : HealthState
  deriving DecidableEq, Repr

inductive CatalogError
  | invalidRecord
  | protocolVersion (version : ℕ)
  | schemaVersion (version : ℕ)
  | wrongProject
  | recoveryEpoch (expected actual : ℕ)
  | unknownPeer
  | notOwner
  | staleOwnerEpoch
  | tombstoneResurrection
  deriving DecidableEq, Repr

/-- The catalog's name for a failed attribution. -/
def CatalogError.ofProvenance : ProvenanceError → CatalogError
  | .unknownPeer => .unknownPeer
  | .notOwner => .notOwner

/-- Records by deployment identifier, with the content hashes taken in so far. -/
abbrev CatalogView := RecordView String String CatalogRecord

namespace CatalogRecord

/-- The checks a record must pass on its own. -/
def validate (record : CatalogRecord) : Except CatalogError Unit :=
  if record.protocolVersion ≠ catalogProtocolVersion then
    .error (.protocolVersion record.protocolVersion)
  else if record.schemaVersion ≠ catalogSchemaVersion then
    .error (.schemaVersion record.schemaVersion)
  else if record.projectId = "" ∨ record.service = "" ∨ record.replicaId = "" ∨
      record.ownerNodeId = "" ∨ record.deploymentId = "" ∨ record.revision = 0 ∨
      record.ownerEpoch = 0 then
    .error .invalidRecord
  else .ok ()

theorem validate_eq_ok_iff {record : CatalogRecord} :
    record.validate = .ok () ↔
      record.protocolVersion = catalogProtocolVersion ∧
        record.schemaVersion = catalogSchemaVersion ∧
        record.projectId ≠ "" ∧ record.service ≠ "" ∧ record.replicaId ≠ "" ∧
        record.ownerNodeId ≠ "" ∧ record.deploymentId ≠ "" ∧ record.revision ≠ 0 ∧
        record.ownerEpoch ≠ 0 := by
  unfold validate
  split_ifs with protocol schema invalid
  · simp [protocol]
  · simp [schema]
  · simp only [false_iff]
    tauto
  · simp only [true_iff]
    tauto

/-- The checks against the scope and the membership. -/
def verify
    (record : CatalogRecord)
    (provenance : RecordProvenance)
    (scope : MembershipScope)
    (membership : MembershipView) : Except CatalogError Unit :=
  match record.validate with
  | .error error => .error error
  | .ok () =>
      if record.projectId ≠ scope.projectId then .error .wrongProject
      else if record.recoveryEpoch ≠ scope.recoveryEpoch then
        .error (.recoveryEpoch scope.recoveryEpoch record.recoveryEpoch)
      else
        (MembershipView.authenticate membership provenance
          record.ownerNodeId).mapError .ofProvenance

/-- A valid record of a scope. -/
def Authentic (scope : MembershipScope) (record : CatalogRecord) : Prop :=
  record.validate = .ok () ∧ record.projectId = scope.projectId ∧
    record.recoveryEpoch = scope.recoveryEpoch

/-- A record verifies when it is authentic and its origin speaks for its owner. -/
theorem verify_eq_ok_iff
    {record : CatalogRecord}
    {scope : MembershipScope}
    {membership : MembershipView} :
    record.verify provenance scope membership = .ok () ↔
      record.Authentic scope ∧
        MembershipView.authenticate membership provenance record.ownerNodeId = .ok () := by
  unfold verify Authentic
  split
  · rename_i error invalid
    simp [invalid]
  · rename_i valid
    split_ifs with project epoch
    · simp [project]
    · simp [epoch]
    · rw [not_not] at project epoch
      simp [valid, project, epoch, Fallible.mapError_eq_ok_iff]

/-- Verification depends only on the members of a view. -/
theorem verify_congr
    (same : membership.records = membership'.records)
    (record : CatalogRecord)
    (provenance : RecordProvenance)
    (scope : MembershipScope) :
    record.verify provenance scope membership =
      record.verify provenance scope membership' := by
  unfold verify
  rw [MembershipView.authenticate_congr same]

/-- A stored record is verified without regard to the membership. -/
theorem verify_verified_eq_ok_iff
    {record : CatalogRecord}
    {membership : MembershipView} :
    record.verify .verified scope membership = .ok () ↔ record.Authentic scope := by
  simp [verify_eq_ok_iff, MembershipView.authenticate]

/-- Tombstones win over other records of the same epoch and revision. -/
def tombstoneWeight (record : CatalogRecord) : ℕ :=
  if record.state = .tombstoned then 1 else 0

/-- The order of a record among the records of its deployment. -/
def order (recordId : CatalogRecord → String) (record : CatalogRecord) : Rank :=
  Rank.of record.ownerEpoch record.revision record.tombstoneWeight (recordId record)

/-- A record that is later than a tombstone of its epoch, and not one itself, has a
larger revision. -/
theorem revision_lt_of_order_lt
    {tombstone record : CatalogRecord}
    (later : tombstone.order recordId < record.order recordId)
    (tombstoned : tombstone.state = .tombstoned)
    (revived : record.state ≠ .tombstoned)
    (epoch : record.ownerEpoch = tombstone.ownerEpoch) :
    tombstone.revision < record.revision := by
  simp only [order, tombstoneWeight, tombstoned, revived, epoch, Rank.of_lt_of] at later
  simp only [lt_irrefl, if_true, if_false, true_and, false_or] at later
  omega

/-- The order of a record among the deployments of its replica. -/
def recordOrder (record : CatalogRecord) : Rank :=
  Rank.of record.ownerEpoch record.revision record.tombstoneWeight record.deploymentId

/-- An active and healthy deployment. -/
abbrev Serving (record : CatalogRecord) : Prop :=
  record.state = .active ∧ record.health = .healthy

end CatalogRecord

/-- A valid record of a deployment of one replica, owned by one node. -/
def sampleDeployment
    (deploymentId replicaId ownerNodeId : String)
    (ownerEpoch revision : ℕ)
    (state : DeploymentState)
    (health : HealthState) : CatalogRecord where
  projectId := "p"
  recoveryEpoch := 1
  protocolVersion := catalogProtocolVersion
  schemaVersion := catalogSchemaVersion
  service := "web"
  replicaId := replicaId
  ownerNodeId := ownerNodeId
  ownerEpoch := ownerEpoch
  revision := revision
  deploymentId := deploymentId
  address := Ipv4Addr.ofOctets 10 211 1 2
  ports := [80]
  image := "web:1"
  state := state
  health := health

/-- For each replica the latest of its active and healthy records. -/
def activeHealthyByReplica (records : List CatalogRecord) :
    Std.ExtTreeMap String CatalogRecord :=
  latestBy CatalogRecord.replicaId CatalogRecord.recordOrder
    (records.filter fun record => record.Serving)

/-- The latest active and healthy record of each replica, by replica. -/
def activeHealthyWinners (records : List CatalogRecord) : List CatalogRecord :=
  valuesOf (activeHealthyByReplica records)

namespace CatalogView

/-- The largest owner epoch among the standing records of a replica. -/
def replicaOwnerEpoch (view : CatalogView) (replicaId : String) : Option ℕ :=
  (((valuesOf view.records).filter fun current =>
    current.replicaId = replicaId).map CatalogRecord.ownerEpoch).max?

/-- The records that name resolution may answer with. -/
def activeHealthy (view : CatalogView) : List CatalogRecord :=
  activeHealthyWinners (valuesOf view.records)

variable (recordId : CatalogRecord → String)

/-- Take a record into the view. -/
def apply
    (provenance : RecordProvenance)
    (scope : MembershipScope)
    (membership : MembershipView)
    (view : CatalogView)
    (record : CatalogRecord) : Except CatalogError (Outcome × CatalogView) :=
  match record.verify provenance scope membership with
  | .error error => .error error
  | .ok () =>
      if recordId record ∈ view.recordIds then
        .ok (.duplicate, view)
      else if (replicaOwnerEpoch view record.replicaId).any
          (fun epoch => record.ownerEpoch < epoch) then
        .error .staleOwnerEpoch
      else
        match view.records[record.deploymentId]? with
        | some current =>
            if record.ownerEpoch < current.ownerEpoch then
              .error .staleOwnerEpoch
            else if record.order recordId ≤ current.order recordId then
              .ok (.superseded, view.note (recordId record))
            else if current.state = .tombstoned ∧ record.state ≠ .tombstoned ∧
                record.ownerEpoch = current.ownerEpoch then
              .error .tombstoneResurrection
            else
              .ok (.applied, view.place record.deploymentId (recordId record) record)
        | none =>
            .ok (.applied, view.place record.deploymentId (recordId record) record)

/-- Rebuild a view from a log of records with their origins. -/
def fromRecords
    (records : List (CatalogRecord × RecordProvenance))
    (scope : MembershipScope)
    (membership : MembershipView) : Except CatalogError CatalogView :=
  RecordView.replay
    (fun view entry => apply recordId entry.2 scope membership view entry.1)
    .empty records

theorem fromRecords_verified
    (log : List CatalogRecord)
    (scope : MembershipScope)
    (membership : MembershipView) :
    fromRecords recordId (log.map fun record => (record, .verified)) scope membership =
      RecordView.replay (apply recordId .verified scope membership) .empty log := by
  rw [fromRecords, RecordView.replay_map]

/-- A standing record of the replica has a larger owner epoch. -/
def Fenced (slots : Slots String CatalogRecord) (record : CatalogRecord) : Prop :=
  ∃ deployment current, slots deployment = some current ∧
    current.replicaId = record.replicaId ∧ record.ownerEpoch < current.ownerEpoch

/-- The standing record of the deployment has a larger owner epoch. -/
def Stale (slots : Slots String CatalogRecord) (record : CatalogRecord) : Prop :=
  ∃ current, slots record.deploymentId = some current ∧
    record.ownerEpoch < current.ownerEpoch

/-- The standing record of the deployment is a tombstone of the record's epoch,
and the record is not. -/
def Resurrects (slots : Slots String CatalogRecord) (record : CatalogRecord) : Prop :=
  ∃ current, slots record.deploymentId = some current ∧
    current.state = .tombstoned ∧ record.state ≠ .tombstoned ∧
    record.ownerEpoch = current.ownerEpoch

/-- The rules that a catalog view enforces on the records that a check admits. -/
def rules (admits : CatalogRecord → Prop) : Rules String CatalogRecord Rank where
  key := CatalogRecord.deploymentId
  rank := CatalogRecord.order recordId
  Barred slots record := ¬admits record ∨ Fenced slots record ∨ Stale slots record
  Blocked := Resurrects

variable {recordId : CatalogRecord → String} {admits : CatalogRecord → Prop}

/-- Removing records never causes a refusal. -/
theorem rules_hereditary : (rules recordId admits).Hereditary where
  barred := by
    rintro smaller larger record sub
      (refused | ⟨deployment, current, stands, fence⟩ | ⟨current, stands, stale⟩)
    · exact Or.inl refused
    · exact Or.inr (Or.inl ⟨deployment, current, sub _ _ stands, fence⟩)
    · exact Or.inr (Or.inr ⟨current, sub _ _ stands, stale⟩)
  blocked := by
    rintro smaller larger record sub ⟨current, stands, resurrects⟩
    exact ⟨current, sub _ _ stands, resurrects⟩

/-- A weaker check admits every step of a stronger one. -/
theorem step_mono
    (weakens : admits record → weaker record)
    (step : (rules recordId admits).Step slots record outcome next) :
    (rules recordId weaker).Step slots record outcome next := by
  have barred : (rules recordId weaker).Barred slots record →
      (rules recordId admits).Barred slots record :=
    Or.imp_left fun refused admitted => refused (weakens admitted)
  cases step with
  | superseded admitted stands outranked =>
      exact .superseded (fun refused => admitted (barred refused)) stands outranked
  | applied admitted outranks unblocked =>
      exact .applied (fun refused => admitted (barred refused)) outranks unblocked

/-- Replaying a log refuses a record that the check does not admit. -/
theorem admits_of_run
    (run : (rules recordId admits).Run slots log final) :
    ∀ record ∈ log, admits record := by
  intro record member
  obtain ⟨_, admitted⟩ := run.unbarred member
  exact not_not.mp fun refused => admitted (Or.inl refused)

/-- A bound is exceeded by the maximum exactly when an element exceeds it. -/
theorem any_max?_iff {bound : ℕ} {epochs : List ℕ} :
    epochs.max?.any (fun epoch => bound < epoch) = true ↔
      ∃ epoch ∈ epochs, bound < epoch := by
  cases largest : epochs.max? with
  | none =>
      rw [List.max?_eq_none_iff.mp largest]
      simp
  | some epoch =>
      obtain ⟨member, upper⟩ := List.max?_eq_some_iff.mp largest
      simp only [Option.any_some, decide_eq_true_eq]
      exact ⟨fun exceeds => ⟨epoch, member, exceeds⟩,
        fun ⟨other, otherMember, exceeds⟩ => exceeds.trans_le (upper other otherMember)⟩

/-- The fence of a replica is the bound that the code computes. -/
theorem replicaOwnerEpoch_any_iff
    {record : CatalogRecord} :
    (replicaOwnerEpoch view record.replicaId).any
        (fun epoch => record.ownerEpoch < epoch) = true ↔
      Fenced view.slots record := by
  rw [replicaOwnerEpoch, any_max?_iff]
  simp only [List.mem_map, List.mem_filter, mem_valuesOf, decide_eq_true_eq]
  constructor
  · rintro ⟨_, ⟨current, ⟨⟨deployment, stands⟩, replica⟩, rfl⟩, exceeds⟩
    exact ⟨deployment, current, stands, replica, exceeds⟩
  · rintro ⟨deployment, current, stands, replica, exceeds⟩
    exact ⟨_, ⟨current, ⟨⟨deployment, stands⟩, replica⟩, rfl⟩, exceeds⟩

/-- A record of new identity is settled by the catalog rules. -/
theorem apply_settles
    (new : recordId record ∉ view.recordIds)
    (result : Outcome × CatalogView) :
    apply recordId provenance scope membership view record = .ok result ↔
      RecordView.Settles
        (rules recordId fun record => record.verify provenance scope membership = .ok ())
        recordId view record result := by
  unfold apply
  split
  · rename_i error refused
    refine iff_of_false (by simp) (fun settled => settled.1 (Or.inl ?_))
    simp [refused]
  · rename_i verified
    rw [if_neg new]
    by_cases fenced : Fenced view.slots record
    · rw [if_pos (replicaOwnerEpoch_any_iff.mpr fenced)]
      exact iff_of_false (by simp) fun settled => settled.1 (Or.inr (Or.inl fenced))
    · rw [if_neg (mt replicaOwnerEpoch_any_iff.mp fenced)]
      obtain ⟨outcome, next⟩ := result
      change (match view.slots record.deploymentId with
        | some current => _
        | none => _) = _ ↔ _
      cases stands : view.slots record.deploymentId with
      | none => simp [RecordView.Settles, rules, Resurrects, Stale, fenced, verified,
          stands, eq_comm]
      | some current =>
          simp only [RecordView.Settles, rules, Resurrects, Stale, fenced, verified, stands]
          split_ifs with stale outranked resurrects
          · simp [stale]
          · simp [stale, outranked, eq_comm]
          · simp [outranked, resurrects]
          · rw [Except.ok.injEq, eq_comm]
            simp [stale, not_le.mp outranked, outranked, resurrects, -not_and]

/-- A catalog view enforces exactly the catalog rules. -/
theorem apply_refines
    {scope : MembershipScope}
    {membership : MembershipView} :
    RecordView.Refines
      (rules recordId fun record => record.verify provenance scope membership = .ok ())
      recordId (apply recordId provenance scope membership) := by
  refine .of_settles apply_settles ?_
  intro view record seen result applied
  unfold apply at applied
  split at applied
  · simp at applied
  · rw [if_pos seen] at applied
    exact (Except.ok.inj applied).symm

/-- Stored records replay under the rules for authentic records. -/
theorem apply_verified_refines
    {scope : MembershipScope}
    {membership : MembershipView} :
    RecordView.Refines (rules recordId (CatalogRecord.Authentic scope))
      recordId (apply recordId .verified scope membership) := by
  have admits : CatalogRecord.Authentic scope =
      fun record => record.verify .verified scope membership = .ok () := by
    funext record
    exact propext CatalogRecord.verify_verified_eq_ok_iff.symm
  rw [admits]
  exact apply_refines

end CatalogView

end Agent
end Jiji
