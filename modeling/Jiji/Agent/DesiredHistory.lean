import Jiji.Agent.Api
import Jiji.Agent.Exchange

/-!
# Histories of the desired state

A stored desired-state record is verified again, against the membership of the
moment, each time the desired state is rebuilt.  This module follows a store
through membership pushes, local commits, exchanges and compactions, and says
which of these steps keep every stored record current.
-/

namespace Jiji
namespace Agent

open Network Replication

namespace AgentStore

/-- One step in the life of a store. -/
inductive HistoryStep
  | membershipPush (usedBytes : ℕ) (record : MembershipRecord)
  | desiredCommit (usedBytes : ℕ) (service : String) (scaleOverride : Option ℕ)
  | exchange (usedBytes : ℕ → ℕ) (peer : SocketAddr) (exchange : Exchange)
  | compact

/-- The store after one step; a step that fails keeps what was stored before it
failed. -/
def advance (hash : ContentHash) (identity : NodeIdentity) (store : AgentStore) :
    HistoryStep → AgentStore
  | .membershipPush usedBytes record =>
      Fallible.keep store (store.applyMembership hash identity.scope usedBytes record)
  | .desiredCommit usedBytes service scaleOverride =>
      Fallible.keep store
        (store.desiredCommit hash identity usedBytes service scaleOverride)
  | .exchange usedBytes peer exchange =>
      (applyExchange hash identity peer usedBytes store exchange).2
  | .compact => (store.compactOperations hash).2

/-- The store after a history. -/
def follow (hash : ContentHash) (identity : NodeIdentity) (store : AgentStore)
    (history : List HistoryStep) : AgentStore :=
  history.foldl (advance hash identity) store

/-- The stored history of the desired state rebuilds, and the node, once it is a
member and there is room, can commit the desired state of every service. -/
def Unwedged (hash : ContentHash) (identity : NodeIdentity) (store : AgentStore) : Prop :=
  ∃ membership desired,
    store.membershipView hash identity.scope = .ok membership ∧
    DesiredStateView.fromRecords hash.desired
      (store.desiredOperations.map fun record => (record, .verified)) identity.scope
      membership = .ok desired ∧
    ∀ usedBytes service scaleOverride, service ≠ "" →
      (MembershipView.get membership identity.nodeId).isSome →
      store.ensureReplicationCapacity usedBytes = .ok () →
      ∃ record next,
        store.desiredCommit hash identity usedBytes service scaleOverride =
          .ok (record, next)

/-- A step that leaves the stored desired state current: a pushed member does not
outdate the epoch of a stored record that it authored, and no record of the last
revision that fits a column is stored. -/
def Steady (hash : ContentHash) (identity : NodeIdentity) (store : AgentStore) :
    HistoryStep → Prop
  | .membershipPush _ record => ∀ logged ∈ store.desiredOperations,
      logged.authorNodeId = record.nodeId → record.ownerEpoch ≤ logged.authorEpoch
  | .desiredCommit _ service _ => ∀ current, store.desiredState service = some current →
      current.revision + 2 ≠ 2 ^ 63
  | .exchange _ peer exchange =>
      ∀ membership, store.membershipView hash identity.scope = .ok membership →
        ∀ record ∈ exchange.desiredOperations,
          record.verify (.peer peer) identity.scope membership = .ok () →
            record.revision + 1 ≠ 2 ^ 63
  | .compact => True

/-- A history of which every step is steady in the store that it meets. -/
def SteadyHistory (hash : ContentHash) (identity : NodeIdentity) :
    AgentStore → List HistoryStep → Prop
  | _, [] => True
  | store, step :: history =>
      store.Steady hash identity step ∧
        SteadyHistory hash identity (store.advance hash identity step) history

/-- Every stored record is current, and every service has a revision to spare. -/
structure UpToDate (hash : ContentHash) (identity : NodeIdentity) (store : AgentStore) :
    Prop where
  sound : store.Sound hash identity.scope
  current : ∀ membership : MembershipView, membership.records = store.membership.winners →
    ∀ record ∈ store.desiredOperations, record.Current membership
  spare : ∀ service record, slotsOf store.desired.winners service = some record →
    record.revision + 1 < 2 ^ 63

variable {hash : ContentHash} {identity : NodeIdentity} {store next : AgentStore}
variable {usedBytes : ℕ} {membership : MembershipView}

theorem upToDate_start (quotaBytes : Option ℕ) :
    (empty.setSoftQuotaBytes quotaBytes).UpToDate hash identity where
  sound := sound_empty.setSoftQuotaBytes quotaBytes
  current := by simp [desiredOperations, setSoftQuotaBytes, empty, Ledger.empty]
  spare := by simp [setSoftQuotaBytes, empty, Ledger.empty, Slots.empty]

/-- A member that stands was admissible. -/
theorem Sound.member_admissible
    (sound : store.Sound hash identity.scope)
    (stands : slotsOf store.membership.winners node = some member) :
    member.Admissible identity.scope ∧ member.nodeId = node := by
  obtain ⟨slots, admitted⟩ := sound.membership.run.unbarred (sound.membership.logged stands)
  exact ⟨not_not.mp fun refused => admitted (Or.inl refused),
    sound.membership.keyed node member stands⟩

/-- The record of a local commit verifies when its author is a member. -/
theorem Sound.nextDesired_verifies
    (sound : store.Sound hash identity.scope)
    (records : membership.records = store.membership.winners)
    (member : MembershipView.get membership identity.nodeId = some author)
    (named : service ≠ "")
    (scaleOverride : Option ℕ) :
    (store.nextDesired identity author service scaleOverride).verify .localNode
      identity.scope membership = .ok () := by
  have stands : slotsOf store.membership.winners identity.nodeId = some author := by
    rw [← records]
    exact member
  obtain ⟨⟨valid, project, _⟩, node⟩ := sound.member_admissible stands
  refine DesiredStateRecord.verify_eq_ok_iff.mpr ⟨⟨?_, rfl, rfl⟩, rfl, author, member, rfl⟩
  obtain ⟨hasProject, hasNode, hasEpoch⟩ := MembershipRecord.named_of_validate valid
  refine DesiredStateRecord.validate_eq_ok_iff.mpr ⟨rfl, Nat.le_succ 1, le_rfl, ?_, named, ?_,
    ?_, hasEpoch⟩
  · change identity.scope.projectId ≠ ""
    rwa [← project]
  · change identity.nodeId ≠ ""
    rwa [← node]
  · change ((store.desiredState service).map fun current => current.revision + 1).getD 1 ≠ 0
    cases store.desiredState service with
    | none => simp
    | some current => simp

/-- In a store that is up to date a record is stored by the rules at the winners. -/
theorem UpToDate.applyDesired_eq_ok_iff
    (upToDate : store.UpToDate hash identity)
    (records : membership.records = store.membership.winners)
    {outcome : Outcome} :
    store.applyDesired hash identity.scope usedBytes membership record provenance =
        .ok (outcome, next) ↔
      ∃ after, store.desired.Ingests
          (DesiredStateView.rules hash.desired fun record =>
            record.verify provenance identity.scope membership = .ok ())
          hash.desired desiredStorable (store.ensureReplicationCapacity usedBytes)
          record outcome after ∧
        next = { store with desired := after } :=
  upToDate.sound.applyDesired_eq_ok_iff (upToDate.current membership records)

/-- Storing a record with a revision to spare keeps a store up to date. -/
theorem UpToDate.applyDesired
    (upToDate : store.UpToDate hash identity)
    (records : membership.records = store.membership.winners)
    (spare : record.verify provenance identity.scope membership = .ok () →
      record.revision + 1 ≠ 2 ^ 63)
    (stored : store.applyDesired hash identity.scope usedBytes membership record provenance =
      .ok (outcome, next)) :
    next.UpToDate hash identity := by
  have sound := upToDate.sound.applyDesired stored
  obtain ⟨after, ingests, rfl⟩ := (upToDate.applyDesired_eq_ok_iff records).mp stored
  refine ⟨sound, ?_, ?_⟩
  · intro other same logged member
    have current : logged.Current membership := by
      rcases ingests.logged_cases member with before | ⟨rfl, admitted⟩
      · exact upToDate.current membership records logged before
      · exact (DesiredStateRecord.verify_eq_ok_iff.mp (not_not.mp admitted)).2.2
    unfold DesiredStateRecord.Current MembershipView.get at current ⊢
    rwa [same, ← records]
  · intro service winner stands
    rcases ingests.winner_cases stands with before | ⟨rfl, admitted, storable⟩
    · exact upToDate.spare service winner before
    · have fits : winner.revision < 2 ^ 63 := of_decide_eq_true storable
      have notLast := spare (not_not.mp admitted)
      omega

/-- The records of a store that is up to date rebuild, and with room there is a
commit for every service. -/
theorem UpToDate.exists_desiredCommit
    (upToDate : store.UpToDate hash identity)
    (rebuilt : store.membershipView hash identity.scope = .ok membership)
    (member : MembershipView.get membership identity.nodeId = some author)
    (named : service ≠ "")
    (scaleOverride : Option ℕ)
    (room : store.ensureReplicationCapacity usedBytes = .ok ()) :
    ∃ record next, store.desiredCommit hash identity usedBytes service scaleOverride =
      .ok (record, next) := by
  obtain ⟨view, replayed, records, _⟩ := upToDate.sound.fromRecords_membership
  have rebuiltView : MembershipView.fromRecords hash.membership store.membershipOperations
      identity.scope = .ok membership := Fallible.mapError_eq_ok_iff.mp rebuilt
  obtain rfl : view = membership := Except.ok.inj (replayed.symm.trans rebuiltView)
  have verifies := upToDate.sound.nextDesired_verifies records member named scaleOverride
  have fits : (store.nextDesired identity author service scaleOverride).revision <
      2 ^ 63 := by
    change ((store.desiredState service).map fun current => current.revision + 1).getD 1 < _
    cases stands : store.desiredState service with
    | none => simp
    | some current => exact upToDate.spare service current stands
  have ingests : ∃ outcome after, store.desired.Ingests
      (DesiredStateView.rules hash.desired fun record =>
        record.verify .localNode identity.scope view = .ok ())
      hash.desired desiredStorable (store.ensureReplicationCapacity usedBytes)
      (store.nextDesired identity author service scaleOverride) outcome after :=
    Ledger.exists_ingests_iff_accepts.mpr
      (Or.inr ⟨room, not_not.mpr verifies, fun _ => ⟨id, decide_eq_true fits⟩⟩)
  obtain ⟨outcome, after, ingests⟩ := ingests
  have stored := (upToDate.applyDesired_eq_ok_iff records).mpr ⟨after, ingests, rfl⟩
  refine ⟨store.nextDesired identity author service scaleOverride, { store with desired := after }, ?_⟩
  simp only [desiredCommit, rebuiltView, member, stored]

/-- A store that is up to date is not wedged. -/
theorem UpToDate.unwedged (upToDate : store.UpToDate hash identity) :
    Unwedged hash identity store := by
  obtain ⟨membership, replayed, records, _⟩ := upToDate.sound.fromRecords_membership
  obtain ⟨desired, rebuilt, _⟩ :=
    upToDate.sound.fromRecords_desired (upToDate.current membership records)
  have viewed : store.membershipView hash identity.scope = .ok membership :=
    Fallible.mapError_eq_ok_iff.mpr replayed
  refine ⟨membership, desired, viewed, rebuilt, ?_⟩
  intro usedBytes service scaleOverride named present room
  obtain ⟨author, member⟩ := Option.isSome_iff_exists.mp present
  exact upToDate.exists_desiredCommit viewed member named scaleOverride room

/-- A pushed member that outdates no stored record keeps a store up to date. -/
theorem UpToDate.applyMembership
    (upToDate : store.UpToDate hash identity)
    (steady : ∀ logged ∈ store.desiredOperations,
      logged.authorNodeId = record.nodeId → record.ownerEpoch ≤ logged.authorEpoch)
    (pushed : store.applyMembership hash identity.scope usedBytes record =
      .ok (outcome, next)) :
    next.UpToDate hash identity := by
  have sound := upToDate.sound.applyMembership pushed
  obtain ⟨after, ingests, rfl⟩ := upToDate.sound.applyMembership_eq_ok_iff.mp pushed
  refine ⟨sound, ?_, upToDate.spare⟩
  intro membership records logged member
  obtain ⟨author, stood, epoch⟩ := upToDate.current ⟨store.membership.winners, ∅⟩ rfl logged
    member
  have stands : slotsOf store.membership.winners logged.authorNodeId = some author := stood
  suffices ∃ later, slotsOf after.winners logged.authorNodeId = some later ∧
      later.ownerEpoch = logged.authorEpoch by
    obtain ⟨later, laterStands, laterEpoch⟩ := this
    rw [DesiredStateRecord.Current, MembershipView.get, records]
    exact ⟨later, laterStands, laterEpoch⟩
  rcases ingests.same_or_step with rfl | step
  · exact ⟨author, stands, epoch⟩
  · obtain ⟨later, laterStands, _⟩ := step.rises stands
    refine ⟨later, laterStands, ?_⟩
    rcases step.source laterStands with before | ⟨_, rfl, node⟩
    · rw [← epoch, Option.some.inj (stands.symm.trans before)]
    · change logged.authorNodeId = later.nodeId at node
      have fresh : ¬later.ownerEpoch < author.ownerEpoch := fun stale =>
        step.unbarred (Or.inr ⟨author, node ▸ stands, stale⟩)
      have bound := steady logged member node
      omega

/-- A local commit with a revision to spare keeps a store up to date. -/
theorem UpToDate.desiredCommit
    (upToDate : store.UpToDate hash identity)
    (steady : ∀ current, store.desiredState service = some current →
      current.revision + 2 ≠ 2 ^ 63)
    (committed : store.desiredCommit hash identity usedBytes service scaleOverride =
      .ok (record, next)) :
    next.UpToDate hash identity := by
  obtain ⟨membership, replayed, records, _⟩ := upToDate.sound.fromRecords_membership
  simp only [AgentStore.desiredCommit, replayed] at committed
  split at committed
  · simp at committed
  · rename_i author _
    split at committed
    · simp at committed
    · rename_i stored
      obtain ⟨rfl, rfl⟩ := Prod.mk.inj (Except.ok.inj committed)
      refine upToDate.applyDesired records (fun _ => ?_) stored
      change ((store.desiredState service).map fun current => current.revision + 1).getD 1 + 1
        ≠ _
      cases stands : store.desiredState service with
      | none => simp
      | some current => exact steady current stands

/-- An exchange whose verified desired records have a revision to spare keeps a store
up to date. -/
theorem UpToDate.receive
    (upToDate : store.UpToDate hash identity)
    (records : membership.records = store.membership.winners)
    (spare : ∀ record ∈ exchange.desiredOperations,
      record.verify (.peer peer) identity.scope membership = .ok () →
        record.revision + 1 ≠ 2 ^ 63) :
    (AgentStore.receive hash identity peer used membership store exchange).2.UpToDate hash
      identity := by
  let Kept : AgentStore → Prop := fun reached =>
    reached.UpToDate hash identity ∧ membership.records = reached.membership.winners
  have catalog : Kept (Fallible.each
      (receiveCatalog hash identity peer used membership) 0 store exchange.operations).2 := by
    refine Fallible.each_of Kept ⟨upToDate, records⟩ ?_
    rintro _ state next record outcome _ ⟨reached, same⟩ stored
    have sound := reached.sound.applyCatalog stored
    obtain ⟨after, _, rfl⟩ := reached.sound.applyCatalog_eq_ok_iff.mp stored
    exact ⟨⟨sound, reached.current, reached.spare⟩, same⟩
  unfold AgentStore.receive
  split
  · rename_i reached loop
    rw [loop] at catalog
    exact catalog.1
  · rename_i reached loop
    rw [loop] at catalog
    have desired : Kept (Fallible.each (receiveDesired hash identity peer used membership)
        exchange.operations.length reached exchange.desiredOperations).2 := by
      refine Fallible.each_of Kept catalog ?_
      rintro _ state next record outcome member ⟨reached, same⟩ stored
      refine ⟨reached.applyDesired same (spare record member) stored, ?_⟩
      rw [same, applyDesired_frame stored]
    exact desired.1

theorem UpToDate.applyExchange
    (upToDate : store.UpToDate hash identity)
    (steady : store.Steady hash identity (.exchange used peer exchange)) :
    (AgentStore.applyExchange hash identity peer used store exchange).2.UpToDate hash
      identity := by
  by_cases valid : exchange.validate identity = .ok ()
  · obtain ⟨membership, rebuilt, records, applied⟩ := upToDate.sound.applyExchange_eq valid
    rw [applied]
    exact upToDate.receive records
      (steady membership (Fallible.mapError_eq_ok_iff.mpr rebuilt))
  · rwa [applyExchange_invalid valid]

theorem UpToDate.compactOperations (upToDate : store.UpToDate hash identity) :
    (store.compactOperations hash).2.UpToDate hash identity where
  sound := upToDate.sound.compactOperations
  current membership records record member :=
    upToDate.current membership records record (List.mem_of_mem_filter member)
  spare := upToDate.spare

/-- A steady step keeps a store up to date. -/
theorem UpToDate.advance
    (upToDate : store.UpToDate hash identity)
    {step : HistoryStep}
    (steady : store.Steady hash identity step) :
    (store.advance hash identity step).UpToDate hash identity := by
  cases step with
  | membershipPush =>
      exact Fallible.keep_of (UpToDate hash identity) upToDate
        fun _ _ => upToDate.applyMembership steady
  | desiredCommit =>
      exact Fallible.keep_of (UpToDate hash identity) upToDate
        fun _ _ => upToDate.desiredCommit steady
  | exchange => exact upToDate.applyExchange steady
  | compact => exact upToDate.compactOperations

/-- A steady history keeps a store up to date. -/
theorem UpToDate.follow
    (upToDate : store.UpToDate hash identity)
    (steady : SteadyHistory hash identity store history) :
    (store.follow hash identity history).UpToDate hash identity := by
  induction history generalizing store with
  | nil => exact upToDate
  | cons step history inductionHypothesis =>
      exact inductionHypothesis (upToDate.advance steady.1) steady.2

/-- In every store that a steady history reaches, the stored desired state rebuilds
and can be committed for every service. -/
theorem follow_unwedged
    (hash : ContentHash)
    (identity : NodeIdentity)
    (quotaBytes : Option ℕ)
    (history : List HistoryStep)
    (steady : SteadyHistory hash identity (empty.setSoftQuotaBytes quotaBytes) history) :
    Unwedged hash identity
      ((empty.setSoftQuotaBytes quotaBytes).follow hash identity history) :=
  ((upToDate_start quotaBytes).follow steady).unwedged

/-- The records that a history of two members stores, with their content hashes. -/
def historyHash : ContentHash where
  membership := lookupId
    [(sampleMember "a" "alpha" 1 1 1 .active,
        "17be4496d8f80dbf3bedc6ee322fa32bcbcbfed271df31c7ff8d51cc5208bb4d"),
      (sampleMember "b" "beta" 2 1 1 .active,
        "0f2d7a30a2a953e23b116060446674362ddf4b27550dbc4201b148bdbbf8a2d5"),
      (sampleMember "a" "alpha" 1 2 1 .active,
        "deabce5856fd5c7f6b45fc02e8cac3101be328ce2ebae057c5d59ed4e5e98a94"),
      (sampleMember "b" "beta" 2 1 2 .tombstoned,
        "0930c9cc569b9b545b6472261a1b308a4928a4cfc81dad34401224b7946b5654")]
  catalog := lookupId []
  desired := lookupId
    [(sampleDesired "web" (some 3) 1 "a" 1,
        "00e4e1b3bf8c9e9e61357813070e32ec9d418c5db1490739476267a06b366bf4"),
      (sampleDesired "api" (some 2) 1 "b" 1,
        "86f2ce975e2676899e3a4795c90cf71aa9d87e2b5fb17ae7b4c69d26dc430fef"),
      (sampleDesired "web" (some 5) 2 "a" 2,
        "4b3bede8baaa873f82f07defc2d0fae97de28017c4600bcc264d8433630a9732")]

/-- The desired state that a peer sends. -/
def desiredExchange : Exchange where
  projectId := "p"
  recoveryEpoch := 1
  protocolVersion := catalogProtocolVersion
  schemaVersion := catalogSchemaVersion
  operations := []
  desiredOperations := [sampleDesired "api" (some 2) 1 "b" 1]

/-- Two members join, both set a scale, and one of them leaves. -/
def steadyHistory : List HistoryStep :=
  [.membershipPush 0 (sampleMember "a" "alpha" 1 1 1 .active),
    .membershipPush 0 (sampleMember "b" "beta" 2 1 1 .active),
    .desiredCommit 0 "web" (some 3),
    .exchange (fun _ => 0)
      ⟨.v4 (sampleMember "b" "beta" 2 1 1 .active).managementAddress, 51830⟩ desiredExchange,
    .membershipPush 0 (sampleMember "b" "beta" 2 1 2 .tombstoned),
    .compact]

theorem follow_unwedged_steadyHistory :
    SteadyHistory historyHash ⟨"p", 1, "a"⟩ (empty.setSoftQuotaBytes none) steadyHistory ∧
      ((empty.setSoftQuotaBytes none).follow historyHash ⟨"p", 1, "a"⟩
        steadyHistory).desiredOperations.length = 2 ∧
      Unwedged historyHash ⟨"p", 1, "a"⟩
        ((empty.setSoftQuotaBytes none).follow historyHash ⟨"p", 1, "a"⟩ steadyHistory) := by
  have steady : SteadyHistory historyHash ⟨"p", 1, "a"⟩ (empty.setSoftQuotaBytes none)
      steadyHistory := by
    have vacant : ((empty.setSoftQuotaBytes none).follow historyHash ⟨"p", 1, "a"⟩
        (steadyHistory.take 2)).desiredState "web" = none := by decide
    refine ⟨?_, ?_, ?_, ?_, ?_, trivial, trivial⟩
    · unfold Steady
      decide
    · unfold Steady
      decide
    · intro current stands
      exact absurd (vacant.symm.trans stands) (by simp)
    · intro membership _ record member _
      rw [List.mem_singleton.mp member]
      decide
    · unfold Steady
      decide
  exact ⟨steady, by decide, follow_unwedged _ _ none _ steady⟩

/-- A node sets a scale, and its own owner epoch is raised afterwards. -/
def wedgingHistory : List HistoryStep :=
  [.membershipPush 0 (sampleMember "a" "alpha" 1 1 1 .active),
    .desiredCommit 0 "web" (some 3),
    .membershipPush 0 (sampleMember "a" "alpha" 1 2 1 .active)]

/-- Raising the owner epoch of a node that has committed a desired state leaves a
history that does not rebuild, and refuses its commits for every service. -/
theorem raised_epoch_wedges_node :
    let store := (empty.setSoftQuotaBytes none).follow historyHash ⟨"p", 1, "a"⟩ wedgingHistory
    store.latestMembership = [sampleMember "a" "alpha" 1 2 1 .active] ∧
      ((store.membershipView historyHash ⟨"p", 1⟩).bind fun membership =>
        ((DesiredStateView.fromRecords historyHash.desired
          (store.desiredOperations.map fun record => (record, .verified)) ⟨"p", 1⟩
          membership).map fun _ => ()).mapError .desired) =
        .error (.desired .staleAuthor) ∧
      (store.desiredCommit historyHash ⟨"p", 1, "a"⟩ 0 "web" (some 5)).map Prod.fst =
        .error (.internal (.desired .staleAuthor)) ∧
      (store.desiredCommit historyHash ⟨"p", 1, "a"⟩ 0 "api" none).map Prod.fst =
        .error (.internal (.desired .staleAuthor)) := by
  decide

end AgentStore
end Agent
end Jiji
