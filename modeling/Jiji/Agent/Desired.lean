import Jiji.Agent.Membership

/-!
# Desired service state

A desired-state record overrides the configured scale of a service.  A view
keeps one record for each service, the latest by revision and content hash.
Unlike a catalog record, a desired-state record is verified against the current
owner epoch of its author each time it is replayed.
-/

namespace Jiji
namespace Agent

open Replication

def desiredProtocolVersion : ℕ := 1

def desiredSchemaVersion : ℕ := 2

def desiredMinSupportedSchemaVersion : ℕ := 1

/-- A scale override for one service; no override resets to the configured
scale. -/
structure DesiredStateRecord where
  projectId : String
  recoveryEpoch : ℕ
  protocolVersion : ℕ
  schemaVersion : ℕ
  service : String
  scaleOverride : Option ℕ
  revision : ℕ
  authorNodeId : String
  authorEpoch : ℕ
  deriving DecidableEq, Repr

inductive DesiredError
  | invalidRecord
  | protocolVersion (version : ℕ)
  | schemaVersion (version : ℕ)
  | wrongProject
  | recoveryEpoch
  | unknownAuthor
  | notAuthor
  | staleAuthor
  deriving DecidableEq, Repr

/-- The desired state's name for a failed attribution. -/
def DesiredError.ofProvenance : ProvenanceError → DesiredError
  | .unknownPeer => .unknownAuthor
  | .notOwner => .notAuthor

/-- Records by service, with the content hashes taken in so far. -/
abbrev DesiredStateView := RecordView String String DesiredStateRecord

namespace DesiredStateRecord

/-- The checks a record must pass on its own. -/
def validate (record : DesiredStateRecord) : Except DesiredError Unit :=
  if record.protocolVersion ≠ desiredProtocolVersion then
    .error (.protocolVersion record.protocolVersion)
  else if record.schemaVersion < desiredMinSupportedSchemaVersion ∨
      desiredSchemaVersion < record.schemaVersion then
    .error (.schemaVersion record.schemaVersion)
  else if record.projectId = "" ∨ record.service = "" ∨ record.authorNodeId = "" ∨
      record.revision = 0 ∨ record.authorEpoch = 0 then
    .error .invalidRecord
  else .ok ()

theorem validate_eq_ok_iff {record : DesiredStateRecord} :
    record.validate = .ok () ↔
      record.protocolVersion = desiredProtocolVersion ∧
        desiredMinSupportedSchemaVersion ≤ record.schemaVersion ∧
        record.schemaVersion ≤ desiredSchemaVersion ∧
        record.projectId ≠ "" ∧ record.service ≠ "" ∧ record.authorNodeId ≠ "" ∧
        record.revision ≠ 0 ∧ record.authorEpoch ≠ 0 := by
  unfold validate
  split_ifs with protocol schema invalid
  · simp [protocol]
  · simp only [false_iff]
    omega
  · simp only [false_iff]
    tauto
  · simp only [true_iff]
    refine ⟨not_not.mp protocol, by omega, by omega, ?_⟩
    tauto

/-- The checks against the scope and the current membership. -/
def verify
    (record : DesiredStateRecord)
    (provenance : RecordProvenance)
    (scope : MembershipScope)
    (membership : MembershipView) : Except DesiredError Unit :=
  match record.validate with
  | .error error => .error error
  | .ok () =>
      if record.projectId ≠ scope.projectId then .error .wrongProject
      else if record.recoveryEpoch ≠ scope.recoveryEpoch then .error .recoveryEpoch
      else
        match MembershipView.authenticate membership provenance record.authorNodeId with
        | .error error => .error (.ofProvenance error)
        | .ok () =>
            match MembershipView.get membership record.authorNodeId with
            | none => .error .unknownAuthor
            | some author =>
                if author.ownerEpoch ≠ record.authorEpoch then .error .staleAuthor
                else .ok ()

/-- A valid record of a scope. -/
def Authentic (scope : MembershipScope) (record : DesiredStateRecord) : Prop :=
  record.validate = .ok () ∧ record.projectId = scope.projectId ∧
    record.recoveryEpoch = scope.recoveryEpoch

/-- The author is a member whose owner epoch is the record's. -/
def Current (membership : MembershipView) (record : DesiredStateRecord) : Prop :=
  ∃ author, MembershipView.get membership record.authorNodeId = some author ∧
    author.ownerEpoch = record.authorEpoch

/-- A record verifies when it is authentic and current and its origin speaks for
its author. -/
theorem verify_eq_ok_iff
    {record : DesiredStateRecord}
    {scope : MembershipScope}
    {membership : MembershipView} :
    record.verify provenance scope membership = .ok () ↔
      record.Authentic scope ∧
        MembershipView.authenticate membership provenance record.authorNodeId = .ok () ∧
        record.Current membership := by
  unfold verify Authentic Current
  split
  · rename_i error invalid
    simp [invalid]
  · rename_i valid
    split_ifs with project epoch
    · simp [project]
    · simp [epoch]
    · rw [not_not] at project epoch
      cases MembershipView.authenticate membership provenance record.authorNodeId with
      | error error => simp
      | ok _ =>
          cases MembershipView.get membership record.authorNodeId with
          | none => simp
          | some author => simp [valid, project, epoch]

/-- The order of a record among the records of its service. -/
def order (recordId : DesiredStateRecord → String) (record : DesiredStateRecord) :
    ℕ ×ₗ String :=
  toLex (record.revision, recordId record)

end DesiredStateRecord

/-- A valid record of a service, written by one node. -/
def sampleDesired
    (service : String)
    (scaleOverride : Option ℕ)
    (revision : ℕ)
    (authorNodeId : String)
    (authorEpoch : ℕ) : DesiredStateRecord where
  projectId := "p"
  recoveryEpoch := 1
  protocolVersion := desiredProtocolVersion
  schemaVersion := desiredSchemaVersion
  service := service
  scaleOverride := scaleOverride
  revision := revision
  authorNodeId := authorNodeId
  authorEpoch := authorEpoch

namespace DesiredStateView

variable (recordId : DesiredStateRecord → String)

/-- Take a record into the view. -/
def apply
    (provenance : RecordProvenance)
    (scope : MembershipScope)
    (membership : MembershipView)
    (view : DesiredStateView)
    (record : DesiredStateRecord) : Except DesiredError (Outcome × DesiredStateView) :=
  match record.verify provenance scope membership with
  | .error error => .error error
  | .ok () =>
      if recordId record ∈ view.recordIds then
        .ok (.duplicate, view)
      else
        match view.records[record.service]? with
        | some current =>
            if record.order recordId ≤ current.order recordId then
              .ok (.superseded, view.note (recordId record))
            else
              .ok (.applied, view.place record.service (recordId record) record)
        | none =>
            .ok (.applied, view.place record.service (recordId record) record)

/-- Rebuild a view from a log of records with their origins. -/
def fromRecords
    (records : List (DesiredStateRecord × RecordProvenance))
    (scope : MembershipScope)
    (membership : MembershipView) : Except DesiredError DesiredStateView :=
  RecordView.replay
    (fun view entry => apply recordId entry.2 scope membership view entry.1)
    .empty records

theorem fromRecords_verified
    (log : List DesiredStateRecord)
    (scope : MembershipScope)
    (membership : MembershipView) :
    fromRecords recordId (log.map fun record => (record, .verified)) scope membership =
      RecordView.replay (apply recordId .verified scope membership) .empty log := by
  rw [fromRecords, RecordView.replay_map]

/-- The rules that a desired-state view enforces on the records that a check
admits. -/
def rules (admits : DesiredStateRecord → Prop) :
    Rules String DesiredStateRecord (ℕ ×ₗ String) where
  key := DesiredStateRecord.service
  rank := DesiredStateRecord.order recordId
  Barred _ record := ¬admits record
  Blocked _ _ := False

variable {recordId : DesiredStateRecord → String} {admits : DesiredStateRecord → Prop}

/-- Removing records never causes a refusal. -/
theorem rules_hereditary : (rules recordId admits).Hereditary where
  barred _ := id
  blocked _ := id

/-- A record of new identity is settled by the desired-state rules. -/
theorem apply_settles
    (new : recordId record ∉ view.recordIds)
    (result : Outcome × DesiredStateView) :
    apply recordId provenance scope membership view record = .ok result ↔
      RecordView.Settles
        (rules recordId fun record => record.verify provenance scope membership = .ok ())
        recordId view record result := by
  unfold apply
  split
  · rename_i error refused
    refine iff_of_false (by simp) (fun settled => settled.1 ?_)
    simp [rules, refused]
  · rename_i verified
    rw [if_neg new]
    obtain ⟨outcome, next⟩ := result
    change (match view.slots record.service with
      | some current => _
      | none => _) = _ ↔ _
    cases stands : view.slots record.service with
    | none => simp [RecordView.Settles, rules, verified, stands, eq_comm]
    | some current =>
        simp only [RecordView.Settles, rules, verified, stands]
        split_ifs with outranked
        · simp [outranked, eq_comm]
        · simp [not_le.mp outranked, outranked, eq_comm]

/-- A desired-state view enforces exactly the desired-state rules. -/
theorem apply_refines
    {membership : MembershipView} :
    RecordView.Refines
      (rules recordId fun record => record.verify provenance scope membership = .ok ())
      recordId (apply recordId provenance scope membership) := by
  refine .of_settles apply_settles ?_
  intro view record seen result applied
  unfold apply at applied
  split at applied
  · simp at applied
  · rw [if_pos seen] at applied
    exact (Except.ok.inj applied).symm

/-- Replaying a log refuses a record that the check does not admit. -/
theorem admits_of_run
    (run : (rules recordId admits).Run slots log final) :
    ∀ record ∈ log, admits record := by
  intro record member
  obtain ⟨_, admitted⟩ := run.unbarred member
  exact not_not.mp admitted

/-- A step is taken under every check that admits its record. -/
theorem step_of_admits
    (step : (rules recordId admits).Step slots record outcome next)
    (admitted : admits' record) :
    (rules recordId admits').Step slots record outcome next := by
  cases step with
  | superseded _ stands outranked =>
      exact .superseded (not_not.mpr admitted) stands outranked
  | applied _ outranks => exact .applied (not_not.mpr admitted) outranks id

/-- A log replays under every check that admits all of its records. -/
theorem run_of_admits
    (run : (rules recordId admits).Run slots log final)
    (admitted : ∀ record ∈ log, admits' record) :
    (rules recordId admits').Run slots log final := by
  induction run with
  | nil => exact .nil
  | cons step _ inductionHypothesis =>
      rw [List.forall_mem_cons] at admitted
      exact .cons (step_of_admits step admitted.1) (inductionHypothesis admitted.2)

end DesiredStateView

end Agent
end Jiji
