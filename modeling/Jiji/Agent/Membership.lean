import Jiji.Control.Fallible
import Jiji.Network.Cidr
import Jiji.Replication.Ledger

/-!
# Mesh membership

Membership records say which nodes belong to the mesh and what each of them
claims for itself: a server name, a management address, a container subnet and
a WireGuard key.  A view keeps one record for each node.  The function
`recordId` is the content hash of a record, a SHA-256 digest of its
serialisation; it is a parameter, and results that need it to be free of
collisions say so.
-/

namespace Jiji
namespace Agent

open Network Replication

/-- The order in which records compete: owner epoch, revision, whether the
record is a tombstone, and content hash. -/
abbrev Rank := ℕ ×ₗ ℕ ×ₗ ℕ ×ₗ String

namespace Rank

/-- Assemble a rank from its four components. -/
def of (epoch revision tombstoned : ℕ) (id : String) : Rank :=
  toLex (epoch, toLex (revision, toLex (tombstoned, id)))

variable {epoch revision tombstoned epoch' revision' tombstoned' : ℕ} {id id' : String}

theorem of_lt_of :
    of epoch revision tombstoned id < of epoch' revision' tombstoned' id' ↔
      epoch < epoch' ∨ epoch = epoch' ∧
        (revision < revision' ∨ revision = revision' ∧
          (tombstoned < tombstoned' ∨ tombstoned = tombstoned' ∧ id < id')) := by
  simp [of, Prod.Lex.toLex_lt_toLex]

/-- Ranks compare by epoch first. -/
theorem epoch_le_of_le
    (le : of epoch revision tombstoned id ≤ of epoch' revision' tombstoned' id') :
    epoch ≤ epoch' := by
  by_contra exceeds
  exact absurd (of_lt_of.mpr (Or.inl (Nat.lt_of_not_le exceeds))) le.not_gt

/-- Equal ranks have equal content hashes. -/
theorem id_eq_of_eq
    (equal : of epoch revision tombstoned id = of epoch' revision' tombstoned' id') :
    id = id' := by
  simp only [of, toLex_inj, Prod.mk.injEq] at equal
  exact equal.2.2.2

end Rank

/-- Characters removed from both ends by trimming. -/
def isWhitespace (character : Char) : Bool :=
  let code := character.toNat
  (0x9 ≤ code && code ≤ 0xD) || code == 0x20 || code == 0x85 || code == 0xA0 ||
    code == 0x1680 || (0x2000 ≤ code && code ≤ 0x200A) || code == 0x2028 ||
    code == 0x2029 || code == 0x202F || code == 0x205F || code == 0x3000

theorem isWhitespace_eq_false
    (low : 46 ≤ character.toNat)
    (high : character.toNat ≤ 122) :
    isWhitespace character = false := by
  simp only [isWhitespace, Bool.or_eq_false_iff, Bool.and_eq_false_iff,
    decide_eq_false_iff_not, beq_eq_false_iff_ne]
  omega

/-- Letters and digits are not white space. -/
theorem isWhitespace_of_isAlphanum {character : Char} (plain : character.isAlphanum) :
    isWhitespace character = false := by
  simp only [Char.isAlphanum, Char.isAlpha, Char.isUpper, Char.isLower, Char.isDigit,
    Bool.or_eq_true, Bool.and_eq_true, decide_eq_true_eq, ge_iff_le,
    UInt32.le_iff_toNat_le] at plain
  have bounds : 'A'.val.toNat = 65 ∧ 'Z'.val.toNat = 90 ∧ 'a'.val.toNat = 97 ∧
      'z'.val.toNat = 122 ∧ '0'.val.toNat = 48 ∧ '9'.val.toNat = 57 := by decide
  refine isWhitespace_eq_false ?_ ?_
  · unfold Char.toNat
    omega
  · unfold Char.toNat
    omega

/-- A text of which trimming leaves nothing. -/
def isBlank (text : String) : Bool := text.toList.all isWhitespace

def membershipProtocolVersion : ℕ := 1

def membershipSchemaVersion : ℕ := 1

inductive MembershipState
  | active
  | tombstoned
  deriving DecidableEq, Repr

/-- What one node claims for itself, as pushed by the operator. -/
structure MembershipRecord where
  projectId : String
  recoveryEpoch : ℕ
  protocolVersion : ℕ
  schemaVersion : ℕ
  nodeId : String
  serverName : String
  wireguardPublicKey : String
  managementAddress : Ipv4Addr
  containerSubnet : String
  endpoints : List SocketAddr
  ownerEpoch : ℕ
  revision : ℕ
  state : MembershipState
  deriving DecidableEq, Repr

inductive MembershipError
  | invalidRecord
  | invalidSubnet
  | protocolVersion (version : ℕ)
  | schemaVersion (version : ℕ)
  | wrongProject
  | recoveryEpoch (expected actual : ℕ)
  | staleOwnerEpoch
  | tombstoneResurrection
  | serverNameClaimed
  | managementAddressClaimed
  | containerSubnetClaimed
  | wireGuardKeyClaimed
  deriving DecidableEq, Repr

namespace MembershipRecord

/-- The checks a record must pass on its own. -/
def validate (record : MembershipRecord) : Except MembershipError Unit :=
  if record.protocolVersion ≠ membershipProtocolVersion then
    .error (.protocolVersion record.protocolVersion)
  else if record.schemaVersion ≠ membershipSchemaVersion then
    .error (.schemaVersion record.schemaVersion)
  else if record.projectId = "" ∨ record.nodeId = "" ∨ record.serverName = "" ∨
      isBlank record.wireguardPublicKey ∨ record.endpoints = [] ∨
      record.revision = 0 ∨ record.ownerEpoch = 0 then
    .error .invalidRecord
  else
    match Ipv4Cidr.fromStr record.containerSubnet with
    | .error _ => .error .invalidSubnet
    | .ok _ => .ok ()

/-- A valid record names a project and a node and has a positive owner epoch. -/
theorem named_of_validate
    {record : MembershipRecord}
    (valid : record.validate = .ok ()) :
    record.projectId ≠ "" ∧ record.nodeId ≠ "" ∧ record.ownerEpoch ≠ 0 := by
  unfold validate at valid
  split_ifs at valid with protocol schema invalid
  simp only [not_or] at invalid
  exact ⟨invalid.1, invalid.2.1, invalid.2.2.2.2.2.2⟩

end MembershipRecord

/-- A valid record of a node whose other claims are fixed by a number. -/
def sampleMember
    (nodeId serverName : String)
    (number : ℕ)
    (ownerEpoch revision : ℕ)
    (state : MembershipState) : MembershipRecord where
  projectId := "p"
  recoveryEpoch := 1
  protocolVersion := membershipProtocolVersion
  schemaVersion := membershipSchemaVersion
  nodeId := nodeId
  serverName := serverName
  wireguardPublicKey := "key-" ++ nodeId
  managementAddress := Ipv4Addr.ofOctets 10 210 0 number
  containerSubnet := "10.211." ++ toString number ++ ".0/24"
  endpoints := [⟨.v4 (Ipv4Addr.ofOctets 192 0 2 number), 51820⟩]
  ownerEpoch := ownerEpoch
  revision := revision
  state := state

/-- The project and recovery epoch that every record must belong to. -/
structure MembershipScope where
  projectId : String
  recoveryEpoch : ℕ
  deriving DecidableEq, Repr

/-- A node's own identity. -/
structure NodeIdentity where
  projectId : String
  recoveryEpoch : ℕ
  nodeId : String
  deriving DecidableEq, Repr

/-- The scope an identity belongs to. -/
def NodeIdentity.scope (identity : NodeIdentity) : MembershipScope :=
  ⟨identity.projectId, identity.recoveryEpoch⟩

/-- Members by node identifier, with the content hashes taken in so far. -/
abbrev MembershipView := RecordView String String MembershipRecord

/-- Where a replicated record came from. -/
inductive RecordProvenance
  | localNode
  | verified
  | peer (source : SocketAddr)
  deriving DecidableEq, Repr

inductive ProvenanceError
  | unknownPeer
  | notOwner
  deriving DecidableEq, Repr

namespace MembershipView

/-- The members that are not tombstoned, in the order of their identifiers. -/
def active (view : MembershipView) : List MembershipRecord :=
  (valuesOf view.records).filter fun record => record.state = .active

def get (view : MembershipView) (nodeId : String) : Option MembershipRecord :=
  view.records[nodeId]?

/-- The first member with a management address, whatever its state. -/
def findByManagementAddress (view : MembershipView) (address : Ipv4Addr) :
    Option MembershipRecord :=
  (valuesOf view.records).find? fun record => record.managementAddress = address

/-- Decide whether a record's origin entitles it to speak for an owner. -/
def authenticate
    (view : MembershipView)
    (provenance : RecordProvenance)
    (claimedOwner : String) : Except ProvenanceError Unit :=
  match provenance with
  | .localNode => .ok ()
  | .verified => .ok ()
  | .peer ⟨.v6 _, _⟩ => .error .unknownPeer
  | .peer ⟨.v4 sourceIp, _⟩ =>
      match findByManagementAddress view sourceIp with
      | none => .error .unknownPeer
      | some peer =>
          if peer.nodeId ≠ claimedOwner then .error .notOwner else .ok ()

/-- Attribution depends only on the members of a view. -/
theorem authenticate_congr
    (same : view.records = other.records)
    (provenance : RecordProvenance)
    (claimedOwner : String) :
    authenticate view provenance claimedOwner =
      authenticate other provenance claimedOwner := by
  unfold authenticate findByManagementAddress
  rw [same]

/-- The first claim of a candidate that another active member already holds. -/
def claimCollision (candidate current : MembershipRecord) :
    Except MembershipError Unit :=
  if current.nodeId = candidate.nodeId then .ok ()
  else if current.serverName = candidate.serverName then
    .error .serverNameClaimed
  else if current.managementAddress = candidate.managementAddress then
    .error .managementAddressClaimed
  else if current.containerSubnet = candidate.containerSubnet then
    .error .containerSubnetClaimed
  else if current.wireguardPublicKey = candidate.wireguardPublicKey then
    .error .wireGuardKeyClaimed
  else .ok ()

/-- Refuse a candidate whose claims collide with those of an active member. -/
def rejectClaimCollisions (view : MembershipView) (candidate : MembershipRecord) :
    Except MembershipError Unit :=
  (active view).forM (claimCollision candidate)

end MembershipView

/-- The contribution of a state to the order of records. -/
def MembershipState.weight : MembershipState → ℕ
  | .active => 0
  | .tombstoned => 1

/-- The order of a record among the records of its node. -/
def MembershipRecord.order
    (recordId : MembershipRecord → String)
    (record : MembershipRecord) : Rank :=
  Rank.of record.ownerEpoch record.revision record.state.weight (recordId record)

namespace MembershipView

variable (recordId : MembershipRecord → String)

/-- Insert a record after the collision check that active records undergo. -/
def insertClaimed (view : MembershipView) (record : MembershipRecord) :
    Except MembershipError (Outcome × MembershipView) :=
  match if record.state = .active then rejectClaimCollisions view record
      else .ok () with
  | .error error => .error error
  | .ok () => .ok (.applied, view.place record.nodeId (recordId record) record)

/-- Take a record into the view. -/
def apply
    (scope : MembershipScope)
    (view : MembershipView)
    (record : MembershipRecord) : Except MembershipError (Outcome × MembershipView) :=
  match record.validate with
  | .error error => .error error
  | .ok () =>
      if record.projectId ≠ scope.projectId then
        .error .wrongProject
      else if record.recoveryEpoch ≠ scope.recoveryEpoch then
        .error (.recoveryEpoch scope.recoveryEpoch record.recoveryEpoch)
      else if recordId record ∈ view.recordIds then
        .ok (.duplicate, view)
      else
        match view.records[record.nodeId]? with
        | some current =>
            if record.ownerEpoch < current.ownerEpoch then
              .error .staleOwnerEpoch
            else if record.order recordId ≤ current.order recordId then
              .ok (.superseded, view.note (recordId record))
            else if current.state = .tombstoned ∧ record.state = .active ∧
                record.ownerEpoch = current.ownerEpoch then
              .error .tombstoneResurrection
            else insertClaimed recordId view record
        | none => insertClaimed recordId view record
/-- Rebuild a view from a log of records. -/
def fromRecords (records : List MembershipRecord) (scope : MembershipScope) :
    Except MembershipError MembershipView :=
  RecordView.replay (apply recordId scope) .empty records

end MembershipView

namespace MembershipRecord

/-- A record that passes the checks made before the view is consulted. -/
def Admissible (scope : MembershipScope) (record : MembershipRecord) : Prop :=
  record.validate = .ok () ∧ record.projectId = scope.projectId ∧
    record.recoveryEpoch = scope.recoveryEpoch

/-- Two records of different nodes make the same claim. -/
def Collides (candidate current : MembershipRecord) : Prop :=
  current.nodeId ≠ candidate.nodeId ∧
    (current.serverName = candidate.serverName ∨
      current.managementAddress = candidate.managementAddress ∨
      current.containerSubnet = candidate.containerSubnet ∨
      current.wireguardPublicKey = candidate.wireguardPublicKey)

end MembershipRecord

namespace MembershipView

open MembershipRecord

/-- An active record would share a claim with another active member. -/
def Contested (slots : Slots String MembershipRecord) (record : MembershipRecord) :
    Prop :=
  record.state = .active ∧ ∃ node current, slots node = some current ∧
    current.state = .active ∧ Collides record current

/-- The member standing for the record's node is a tombstone of its epoch, and
the record would make the node active again. -/
def Resurrects (slots : Slots String MembershipRecord) (record : MembershipRecord) :
    Prop :=
  ∃ current, slots record.nodeId = some current ∧ current.state = .tombstoned ∧
    record.state = .active ∧ record.ownerEpoch = current.ownerEpoch

/-- The rules that a membership view enforces. -/
def rules (recordId : MembershipRecord → String) (scope : MembershipScope) :
    Rules String MembershipRecord Rank where
  key := MembershipRecord.nodeId
  rank := order recordId
  Barred slots record := ¬Admissible scope record ∨
    ∃ current, slots record.nodeId = some current ∧
      record.ownerEpoch < current.ownerEpoch
  Blocked slots record := Resurrects slots record ∨ Contested slots record

/-- Removing members never causes a refusal. -/
theorem rules_hereditary
    (recordId : MembershipRecord → String)
    (scope : MembershipScope) :
    (rules recordId scope).Hereditary where
  barred := by
    rintro smaller larger record sub (inadmissible | ⟨current, stands, stale⟩)
    · exact Or.inl inadmissible
    · exact Or.inr ⟨current, sub _ _ stands, stale⟩
  blocked := by
    rintro smaller larger record sub
      (⟨current, stands, resurrects⟩ | ⟨active, node, current, stands, collides⟩)
    · exact Or.inl ⟨current, sub _ _ stands, resurrects⟩
    · exact Or.inr ⟨active, node, current, sub _ _ stands, collides⟩

theorem mem_active
    {record : MembershipRecord} :
    record ∈ active view ↔
      (∃ node, view.slots node = some record) ∧ record.state = .active := by
  simp [active, mem_valuesOf, RecordView.slots]

theorem claimCollision_eq_ok_iff
    {candidate current : MembershipRecord} :
    claimCollision candidate current = .ok () ↔ ¬Collides candidate current := by
  unfold claimCollision Collides
  split_ifs <;> simp_all

theorem rejectClaimCollisions_eq_ok_iff
    {candidate : MembershipRecord} :
    rejectClaimCollisions view candidate = .ok () ↔
      ∀ node current, view.slots node = some current → current.state = .active →
        ¬Collides candidate current := by
  simp only [rejectClaimCollisions, Fallible.forM_eq_ok_iff, mem_active,
    claimCollision_eq_ok_iff]
  exact ⟨fun unclaimed node current stands active =>
      unclaimed current ⟨⟨node, stands⟩, active⟩,
    fun unclaimed current ⟨⟨node, stands⟩, active⟩ =>
      unclaimed node current stands active⟩

variable {recordId : MembershipRecord → String} {scope : MembershipScope}

/-- A record is inserted exactly when its claims are uncontested. -/
theorem insertClaimed_eq_ok_iff
    {outcome : Outcome} :
    insertClaimed recordId view record = .ok (outcome, next) ↔
      ¬Contested view.slots record ∧ outcome = .applied ∧
        next = view.place record.nodeId (recordId record) record := by
  have checked : (if record.state = .active then rejectClaimCollisions view record
      else .ok ()) = .ok () ↔ ¬Contested view.slots record := by
    unfold Contested
    split
    · rename_i active
      rw [rejectClaimCollisions_eq_ok_iff]
      simp [active]
    · rename_i inactive
      simp [inactive]
  unfold insertClaimed
  rw [← checked]
  split
  · rename_i error failed
    simp [failed]
  · rename_i passed
    simp only [passed, true_and, Except.ok.injEq, Prod.mk.injEq]
    rw [eq_comm, @eq_comm _ _ next]

/-- The checks before the view is consulted admit exactly the admissible
records. -/
theorem apply_of_admissible
    (admissible : Admissible scope record) :
    apply recordId scope view record =
      if recordId record ∈ view.recordIds then .ok (.duplicate, view)
      else
        match view.slots record.nodeId with
        | some current =>
            if record.ownerEpoch < current.ownerEpoch then
              .error .staleOwnerEpoch
            else if record.order recordId ≤ current.order recordId then
              .ok (.superseded, view.note (recordId record))
            else if current.state = .tombstoned ∧ record.state = .active ∧
                record.ownerEpoch = current.ownerEpoch then
              .error .tombstoneResurrection
            else insertClaimed recordId view record
        | none => insertClaimed recordId view record := by
  obtain ⟨valid, project, epoch⟩ := admissible
  simp only [apply, valid, project, epoch, ne_eq, not_true_eq_false, if_false]
  rfl

theorem admissible_of_apply_eq_ok
    (applied : apply recordId scope view record = .ok result) :
    Admissible scope record := by
  unfold apply at applied
  split at applied
  · simp at applied
  · rename_i valid
    refine ⟨valid, ?_⟩
    split_ifs at applied
    all_goals simp_all

/-- A record of new identity is settled by the membership rules. -/
theorem apply_settles
    (new : recordId record ∉ view.recordIds)
    (result : Outcome × MembershipView) :
    apply recordId scope view record = .ok result ↔
      RecordView.Settles (rules recordId scope) recordId view record result := by
  by_cases admissible : Admissible scope record
  · rw [apply_of_admissible admissible, if_neg new]
    obtain ⟨outcome, next⟩ := result
    cases stands : view.slots record.nodeId with
    | none =>
        simp [RecordView.Settles, rules, Resurrects, admissible, stands,
          insertClaimed_eq_ok_iff]
    | some current =>
        simp only [RecordView.Settles, rules, Resurrects, admissible, stands]
        split_ifs with stale outranked resurrects
        · simp [stale]
        · simp [stale, outranked, eq_comm]
        · simp [outranked, resurrects]
        · simp [stale, not_le.mp outranked, outranked, resurrects,
            insertClaimed_eq_ok_iff]
  · refine iff_of_false (fun applied => ?_) (fun settled => ?_)
    · exact admissible (admissible_of_apply_eq_ok applied)
    · exact settled.1 (Or.inl admissible)

/-- A membership view enforces exactly the membership rules. -/
theorem apply_refines :
    RecordView.Refines (rules recordId scope) recordId (apply recordId scope) := by
  refine .of_settles apply_settles ?_
  intro view record seen result applied
  rw [apply_of_admissible (admissible_of_apply_eq_ok applied), if_pos seen] at applied
  exact (Except.ok.inj applied).symm

end MembershipView

end Agent
end Jiji
