import Jiji.Agent.Membership

/-!
# Membership safety

Over any sequence of apply calls, refused records being skipped, the active
members of a view never share a claim and the record of a node only moves
forward.  Attribution of a connection by its source address is as reliable as
these facts allow: it is exact unless a tombstoned member precedes the active
holder of the address.
-/

namespace Jiji
namespace Agent
namespace MembershipView

open Network Replication MembershipRecord

/-- Offer a sequence of records, each under the scope of its own call. -/
def deliver
    (recordId : MembershipRecord → String)
    (view : MembershipView)
    (calls : List (MembershipScope × MembershipRecord)) : MembershipView :=
  calls.foldl (fun view call => RecordView.offer (apply recordId call.1) view call.2) view

/-- What may follow a record of a node: a record of larger order that does not
undo a tombstone within its epoch. -/
structure Succeeds
    (recordId : MembershipRecord → String)
    (before after : MembershipRecord) : Prop where
  order_lt : before.order recordId < after.order recordId
  epoch_lt : before.state = .tombstoned → after.state = .active →
    before.ownerEpoch < after.ownerEpoch

/-- Every member is kept or succeeded by a later record of its node. -/
def Advances
    (recordId : MembershipRecord → String)
    (slots next : Slots String MembershipRecord) : Prop :=
  ∀ node before, slots node = some before →
    ∃ after, next node = some after ∧
      (after = before ∨ Succeeds recordId before after)

/-- Members stand under their own identifiers, and no two active members make
the same claim. -/
structure Safe (slots : Slots String MembershipRecord) : Prop where
  keyed : ∀ node record, slots node = some record → record.nodeId = node
  exclusive : ∀ leftNode left rightNode right,
    slots leftNode = some left → slots rightNode = some right →
      left.state = .active → right.state = .active → ¬Collides left right

variable {recordId : MembershipRecord → String} {scope : MembershipScope}

theorem Collides.symm
    (collides : Collides left right) :
    Collides right left := by
  obtain ⟨different, name | address | subnet | key⟩ := collides
  · exact ⟨different.symm, Or.inl name.symm⟩
  · exact ⟨different.symm, Or.inr (Or.inl address.symm)⟩
  · exact ⟨different.symm, Or.inr (Or.inr (Or.inl subnet.symm))⟩
  · exact ⟨different.symm, Or.inr (Or.inr (Or.inr key.symm))⟩

/-- The order of records never decreases the owner epoch. -/
theorem epoch_le_of_order_lt
    {before after : MembershipRecord}
    (lt : before.order recordId < after.order recordId) :
    before.ownerEpoch ≤ after.ownerEpoch :=
  Rank.epoch_le_of_le lt.le

theorem Succeeds.trans
    {first second third : MembershipRecord}
    (left : Succeeds recordId first second)
    (right : Succeeds recordId second third) :
    Succeeds recordId first third where
  order_lt := left.order_lt.trans right.order_lt
  epoch_lt := by
    intro buried revived
    have firstLe := epoch_le_of_order_lt left.order_lt
    have secondLe := epoch_le_of_order_lt right.order_lt
    cases state : second.state with
    | active =>
        have := left.epoch_lt buried state
        omega
    | tombstoned =>
        have := right.epoch_lt state revived
        omega

theorem Advances.refl (slots : Slots String MembershipRecord) :
    Advances recordId slots slots :=
  fun _ before stands => ⟨before, stands, Or.inl rfl⟩

theorem Advances.trans
    (left : Advances recordId first second)
    (right : Advances recordId second third) :
    Advances recordId first third := by
  intro node before stands
  obtain ⟨between, betweenStands, kept⟩ := left node before stands
  obtain ⟨after, afterStands, keptAgain⟩ := right node between betweenStands
  refine ⟨after, afterStands, ?_⟩
  rcases kept with rfl | succeeded
  · exact keptAgain
  · rcases keptAgain with rfl | succeededAgain
    · exact Or.inr succeeded
    · exact Or.inr (succeeded.trans succeededAgain)

/-- An accepted record advances the members. -/
theorem advances_of_step
    {record : MembershipRecord}
    {outcome : Outcome}
    (step : (rules recordId scope).Step slots record outcome next) :
    Advances recordId slots next := by
  cases step with
  | superseded => exact .refl slots
  | applied admitted outranks unblocked =>
      intro node before stands
      by_cases same : node = record.nodeId
      · subst same
        refine ⟨record, Function.update_self _ _ _, Or.inr ⟨outranks before stands, ?_⟩⟩
        intro buried revived
        have le := epoch_le_of_order_lt (outranks before stands)
        have different : record.ownerEpoch ≠ before.ownerEpoch := fun equal =>
          unblocked (Or.inl ⟨before, stands, buried, revived, equal⟩)
        omega
      · exact ⟨before, by rw [← stands]; exact Function.update_of_ne same _ _, Or.inl rfl⟩

/-- An accepted record keeps the members safe. -/
theorem Safe.step
    (safe : Safe slots)
    (step : (rules recordId scope).Step slots record outcome next) :
    Safe next where
  keyed := step.keyed safe.keyed
  exclusive := by
    intro leftNode left rightNode right leftStands rightStands leftActive rightActive collides
    cases step with
    | superseded =>
        exact safe.exclusive _ _ _ _ leftStands rightStands leftActive rightActive collides
    | applied admitted outranks unblocked =>
        have step := Rules.Step.applied admitted outranks unblocked
        rcases step.source leftStands with leftBefore | ⟨_, rfl, _⟩
        · rcases step.source rightStands with rightBefore | ⟨_, rfl, _⟩
          · exact safe.exclusive _ _ _ _ leftBefore rightBefore leftActive rightActive collides
          · exact unblocked (Or.inr ⟨rightActive, leftNode, left, leftBefore, leftActive,
              Collides.symm collides⟩)
        · rcases step.source rightStands with rightBefore | ⟨_, rfl, _⟩
          · exact unblocked (Or.inr ⟨leftActive, rightNode, right, rightBefore, rightActive,
              collides⟩)
          · exact collides.1 rfl

theorem safe_empty : Safe (RecordView.empty : MembershipView).slots where
  keyed := by simp [Slots.empty]
  exclusive := by simp [Slots.empty]

theorem deliver_append
    (view : MembershipView)
    (calls later : List (MembershipScope × MembershipRecord)) :
    deliver recordId view (calls ++ later) =
      deliver recordId (deliver recordId view calls) later :=
  List.foldl_append

/-- A sequence of calls keeps a safe view safe and advances it. -/
theorem deliver_safe_advances
    (recordId : MembershipRecord → String)
    (safe : Safe view.slots)
    (calls : List (MembershipScope × MembershipRecord)) :
    Safe (deliver recordId view calls).slots ∧
      Advances recordId view.slots (deliver recordId view calls).slots := by
  induction calls generalizing view with
  | nil => exact ⟨safe, .refl _⟩
  | cons call calls inductionHypothesis =>
      have refines : RecordView.Refines (rules recordId call.1) recordId
          (apply recordId call.1) := apply_refines
      rcases refines.offer_cases view call.2 with
        ⟨_, unchanged⟩ | ⟨_, unchanged, _⟩ | ⟨_, _, outcome, step⟩
      · simpa [deliver, unchanged] using inductionHypothesis safe
      · simpa [deliver, unchanged] using inductionHypothesis safe
      · obtain ⟨safeLater, advances⟩ := inductionHypothesis (safe.step step)
        exact ⟨safeLater, (advances_of_step step).trans advances⟩

/-- In every view reached by apply calls, distinct active members differ in each
of their claims; and over any further calls the record of a node only moves
strictly up in its order, a tombstone giving way to an active record only under
a strictly larger owner epoch. -/
theorem active_claims_distinct_and_records_advance
    (recordId : MembershipRecord → String)
    (calls later : List (MembershipScope × MembershipRecord)) :
    (∀ left ∈ active (deliver recordId .empty calls),
      ∀ right ∈ active (deliver recordId .empty calls), left ≠ right →
        left.serverName ≠ right.serverName ∧
          left.managementAddress ≠ right.managementAddress ∧
          left.containerSubnet ≠ right.containerSubnet ∧
          left.wireguardPublicKey ≠ right.wireguardPublicKey) ∧
      ∀ node before, get (deliver recordId .empty calls) node = some before →
        ∃ after, get (deliver recordId .empty (calls ++ later)) node = some after ∧
          (after = before ∨
            before.order recordId < after.order recordId ∧
              (before.state = .tombstoned → after.state = .active →
                before.ownerEpoch < after.ownerEpoch)) := by
  obtain ⟨safe, _⟩ := deliver_safe_advances recordId safe_empty calls
  constructor
  · intro left leftMember right rightMember different
    obtain ⟨⟨leftNode, leftStands⟩, leftActive⟩ := mem_active.mp leftMember
    obtain ⟨⟨rightNode, rightStands⟩, rightActive⟩ := mem_active.mp rightMember
    have apart : right.nodeId ≠ left.nodeId := by
      intro same
      rw [safe.keyed _ _ leftStands, safe.keyed _ _ rightStands] at same
      subst same
      exact different (Option.some.inj (leftStands.symm.trans rightStands))
    have unclaimed := safe.exclusive _ _ _ _ leftStands rightStands leftActive rightActive
    simp only [Collides, not_and_or, not_or] at unclaimed
    rcases unclaimed with same | ⟨name, address, subnet, key⟩
    · exact absurd apart same
    · exact ⟨fun equal => name equal.symm, fun equal => address equal.symm,
        fun equal => subnet equal.symm, fun equal => key equal.symm⟩
  · intro node before stands
    have advances := (deliver_safe_advances recordId safe later).2
    rw [← deliver_append] at advances
    obtain ⟨after, afterStands, kept⟩ := advances node before stands
    exact ⟨after, afterStands, kept.imp_right fun succeeds =>
      ⟨succeeds.order_lt, succeeds.epoch_lt⟩⟩

/-- A peer is attributed to the first member that holds its source address. -/
theorem authenticate_peer_eq_ok_iff
    {claimedOwner : String} :
    authenticate view (.peer ⟨.v4 address, port⟩) claimedOwner = .ok () ↔
      ∃ peer, findByManagementAddress view address = some peer ∧
        peer.nodeId = claimedOwner := by
  unfold authenticate
  cases found : findByManagementAddress view address with
  | none => simp [found]
  | some peer => simp [found]

/-- A connection from a member's address speaks for the member unless a member
with a smaller node identifier has the address, too. -/
theorem authenticate_own_address_iff
    (keyed : ∀ node record, view.slots node = some record → record.nodeId = node)
    (stands : view.slots member.nodeId = some member) :
    authenticate view (.peer ⟨.v4 member.managementAddress, port⟩) member.nodeId =
        .ok () ↔
      ∀ node other, view.slots node = some other →
        other.managementAddress = member.managementAddress →
          ¬other.nodeId < member.nodeId := by
  have present : member ∈ valuesOf view.records := mem_valuesOf.mpr ⟨_, stands⟩
  rw [authenticate_peer_eq_ok_iff]
  constructor
  · rintro ⟨peer, found, identified⟩ node other otherStands address earlier
    obtain ⟨_, _, first⟩ := find?_first (valuesOf_pairwise keyed) found
    rcases first other (mem_valuesOf.mpr ⟨node, otherStands⟩) (by simpa using address) with
      rfl | later
    · exact earlier.ne identified
    · rw [identified] at later
      exact lt_asymm earlier (compare_lt_iff_lt.mp later)
  · intro untaken
    cases found : findByManagementAddress view member.managementAddress with
    | none =>
        have absent := List.find?_eq_none.mp found member present
        simp at absent
    | some peer =>
        refine ⟨peer, rfl, ?_⟩
        obtain ⟨peerPresent, matched, first⟩ := find?_first (valuesOf_pairwise keyed) found
        simp only [decide_eq_true_eq] at matched first
        obtain ⟨node, peerStands⟩ := mem_valuesOf.mp peerPresent
        rcases first member present rfl with rfl | earlier
        · rfl
        · exact absurd (compare_lt_iff_lt.mp earlier) (untaken node peer peerStands matched)

/-- In a safe view a connection from an active member's address is attributed
to the first node that holds the address: the member itself or an earlier
tombstone. -/
theorem findByManagementAddress_active
    (safe : Safe view.slots)
    (isActive : member ∈ active view) :
    ∃ peer, findByManagementAddress view member.managementAddress = some peer ∧
      view.slots peer.nodeId = some peer ∧
      peer.managementAddress = member.managementAddress ∧
      (∀ node other, view.slots node = some other →
        other.managementAddress = member.managementAddress →
          other = peer ∨ peer.nodeId < other.nodeId) ∧
      (peer = member ∨ peer.state = .tombstoned ∧ peer.nodeId < member.nodeId) := by
  obtain ⟨⟨node, stands⟩, memberActive⟩ := mem_active.mp isActive
  have present : member ∈ valuesOf view.records := mem_valuesOf.mpr ⟨node, stands⟩
  cases found : findByManagementAddress view member.managementAddress with
  | none =>
      have absent := List.find?_eq_none.mp found member present
      simp at absent
  | some peer =>
      obtain ⟨peerPresent, matched, first⟩ :=
        find?_first (valuesOf_pairwise safe.keyed) found
      simp only [decide_eq_true_eq] at matched first
      obtain ⟨peerNode, peerStands⟩ := mem_valuesOf.mp peerPresent
      have peerKeyed : view.slots peer.nodeId = some peer := by
        rw [safe.keyed _ _ peerStands]
        exact peerStands
      refine ⟨peer, rfl, peerKeyed, matched, ?_, ?_⟩
      · intro otherNode other otherStands address
        exact (first other (mem_valuesOf.mpr ⟨otherNode, otherStands⟩) address).imp_right
          compare_lt_iff_lt.mp
      · rcases first member present rfl with same | earlier
        · exact Or.inl same.symm
        · have earlier := compare_lt_iff_lt.mp earlier
          refine Or.inr ⟨?_, earlier⟩
          cases peerState : peer.state with
          | tombstoned => rfl
          | active =>
              exact absurd ⟨earlier.ne, Or.inr (Or.inl matched)⟩
                (safe.exclusive _ _ _ _ stands peerStands memberActive peerState)

/-- An active member of a reachable view is attributed exactly, by any node and
from any port, precisely when no tombstoned member with a smaller node
identifier has kept its management address. -/
theorem authenticate_active_iff_no_earlier_tombstone
    (recordId : MembershipRecord → String)
    (calls : List (MembershipScope × MembershipRecord))
    (member : MembershipRecord)
    (isActive : member ∈ active (deliver recordId .empty calls)) :
    (∀ claimedOwner port,
      authenticate (deliver recordId .empty calls)
          (.peer ⟨.v4 member.managementAddress, port⟩) claimedOwner = .ok () ↔
        claimedOwner = member.nodeId) ↔
      ∀ node other, get (deliver recordId .empty calls) node = some other →
        other.state = .tombstoned →
        other.managementAddress = member.managementAddress →
          ¬other.nodeId < member.nodeId := by
  obtain ⟨safe, _⟩ := deliver_safe_advances recordId safe_empty calls
  obtain ⟨peer, found, peerStands, address, first, identified⟩ :=
    findByManagementAddress_active safe isActive
  simp only [authenticate_peer_eq_ok_iff, found, Option.some.injEq, exists_eq_left']
  constructor
  · intro exact node other stands buried held earlier
    have peerNode : peer.nodeId = member.nodeId := (exact member.nodeId 0).mpr rfl
    rcases first node other stands held with rfl | later
    · exact earlier.ne peerNode
    · rw [peerNode] at later
      exact lt_asymm earlier later
  · intro untaken claimedOwner _
    rcases identified with rfl | ⟨buried, earlier⟩
    · exact eq_comm
    · exact absurd earlier (untaken peer.nodeId peer peerStands buried address)

/-- A node that is decommissioned after holding an address. -/
def retiredMember (revision : ℕ) (state : MembershipState) : MembershipRecord :=
  sampleMember "a" "alpha" 1 1 revision state

/-- A later node that is given the address again. -/
def replacementMember : MembershipRecord :=
  { sampleMember "b" "beta" 2 1 1 .active with
    managementAddress := (retiredMember 1 .active).managementAddress }

/-- The content hashes of the records of an address reuse. -/
def reuseId : MembershipRecord → String :=
  lookupId
    [(retiredMember 1 .active,
        "17be4496d8f80dbf3bedc6ee322fa32bcbcbfed271df31c7ff8d51cc5208bb4d"),
      (retiredMember 2 .tombstoned,
        "a88882a2bdf348ed99c2749618cde056fc08b603986efd9061c8014a0b5f00f8"),
      (replacementMember,
        "2316b34ae89ccfc720a358411b1c4ac0a5a6516bfb8ef3ebceaad36fca7fdc91")]

/-- The calls that decommission a node and reuse its address. -/
def reuseCalls : List (MembershipScope × MembershipRecord) :=
  [retiredMember 1 .active, retiredMember 2 .tombstoned, replacementMember].map
    fun record => (⟨"p", 1⟩, record)

theorem authenticate_active_iff_no_earlier_tombstone_reuse :
    replacementMember ∈ active (deliver reuseId .empty reuseCalls) ∧
      ((∀ claimedOwner port,
        authenticate (deliver reuseId .empty reuseCalls)
            (.peer ⟨.v4 replacementMember.managementAddress, port⟩) claimedOwner = .ok () ↔
          claimedOwner = replacementMember.nodeId) ↔
        ∀ node other, get (deliver reuseId .empty reuseCalls) node = some other →
          other.state = .tombstoned →
          other.managementAddress = replacementMember.managementAddress →
            ¬other.nodeId < replacementMember.nodeId) :=
  ⟨by decide, authenticate_active_iff_no_earlier_tombstone reuseId reuseCalls
    replacementMember (by decide)⟩

/-- After an address is reused, its active holder cannot speak for itself and
its source address speaks for the decommissioned node. -/
theorem replacement_attributed_to_retired_member :
    replacementMember ∈ active (deliver reuseId .empty reuseCalls) ∧
      authenticate (deliver reuseId .empty reuseCalls)
          (.peer ⟨.v4 replacementMember.managementAddress, 51830⟩) "b" =
        .error .notOwner ∧
      authenticate (deliver reuseId .empty reuseCalls)
          (.peer ⟨.v4 replacementMember.managementAddress, 51830⟩) "a" = .ok () := by
  decide

end MembershipView
end Agent
end Jiji
