import Jiji.Agent.CatalogConvergence
import Jiji.Agent.Commits
import Jiji.Agent.Exchange
import Jiji.Agent.MembershipSafety

/-!
# A commit takes effect at once

A node writes the records of its own deployments with the owner epoch that its membership
has at the time, and the epoch of a member never falls.  So no record of the node in its
own store carries a larger epoch than the next commit will, and the next revision lies
above every standing one: a commit that the agent confirms is never a duplicate of an
earlier record and is never superseded.  It wins its deployment, and it is ahead of every
other deployment of its replica.
-/

namespace Jiji
namespace Agent

open Network Replication

/-- A record with another revision, state and health. -/
def CatalogRecord.restate
    (record : CatalogRecord)
    (revision : ℕ)
    (state : DeploymentState)
    (health : HealthState) : CatalogRecord :=
  { record with revision := revision, state := state, health := health }

namespace AgentStore

/-- One step in the life of the store of a node. -/
inductive StoreEvent
  | membershipPush (usedBytes : ℕ) (record : MembershipRecord)
  | desiredApply (usedBytes : ℕ) (membership : MembershipView) (record : DesiredStateRecord)
      (provenance : RecordProvenance)
  | catalogCommit (usedBytes : ℕ) (commit : CatalogCommit)
  | restate (usedBytes : ℕ) (original : CatalogRecord) (state : DeploymentState)
      (health : HealthState)
  | receive (usedBytes : ℕ) (source : SocketAddr) (record : CatalogRecord)
  | restore (usedBytes : ℕ) (record : CatalogRecord)
  | compact
  | reopen
  | setSoftQuotaBytes (quotaBytes : Option ℕ)

/-- Apply a catalog record under the membership of the moment. -/
def takeCatalog
    (hash : ContentHash)
    (scope : MembershipScope)
    (usedBytes : ℕ)
    (store : AgentStore)
    (record : CatalogRecord)
    (provenance : RecordProvenance) : AgentStore :=
  match MembershipView.fromRecords hash.membership store.membershipOperations scope with
  | .error _ => store
  | .ok membership =>
      Fallible.keep store
        (store.applyCatalog hash scope usedBytes membership record provenance)

/-- The store after one step; a step that fails changes nothing. -/
def experience (hash : ContentHash) (identity : NodeIdentity) (store : AgentStore) :
    StoreEvent → AgentStore
  | .membershipPush usedBytes record =>
      Fallible.keep store (store.applyMembership hash identity.scope usedBytes record)
  | .desiredApply usedBytes membership record provenance =>
      Fallible.keep store
        (store.applyDesired hash identity.scope usedBytes membership record provenance)
  | .catalogCommit usedBytes commit =>
      Fallible.keep store (store.catalogCommit hash identity usedBytes commit)
  | .restate usedBytes original state health =>
      store.takeCatalog hash identity.scope usedBytes
        (original.restate (store.nextCatalogRevision original.replicaId) state health)
        .localNode
  | .receive usedBytes source record =>
      store.takeCatalog hash identity.scope usedBytes record (.peer source)
  | .restore usedBytes record =>
      store.takeCatalog hash identity.scope usedBytes record .verified
  | .compact => (store.compactOperations hash).2
  | .reopen => store.reopen
  | .setSoftQuotaBytes quotaBytes => store.setSoftQuotaBytes quotaBytes

/-- The membership of a store has reached an owner epoch of a node. -/
def EpochReached (store : AgentStore) (nodeId : String) (epoch : ℕ) : Prop :=
  ∃ member, slotsOf store.membership.winners nodeId = some member ∧
    epoch ≤ member.ownerEpoch

/-- What the steps of an agent keep to: a reconciliation restates a record of the node that
it read from the store, nobody else connects from the node's own address to deliver records
of the node, and a backup is imported when the membership is already current. -/
def Permitted (identity : NodeIdentity) (passed : List AgentStore) (store : AgentStore) :
    StoreEvent → Prop
  | .restate _ original _ _ =>
      original.ownerNodeId = identity.nodeId ∧
        ∃ earlier ∈ store :: passed, original ∈ earlier.latestCatalog
  | .receive _ source record =>
      record.ownerNodeId = identity.nodeId →
        ∀ member, slotsOf store.membership.winners identity.nodeId = some member →
          source.ip ≠ .v4 member.managementAddress
  | .restore _ record =>
      record.ownerNodeId = identity.nodeId →
        store.EpochReached identity.nodeId record.ownerEpoch
  | _ => True

/-- The stores that a node passes from a fresh database on, the last one apart. -/
inductive Lives (hash : ContentHash) (identity : NodeIdentity) :
    List AgentStore → AgentStore → Prop
  | fresh : Lives hash identity [] empty
  | step {passed : List AgentStore} {store : AgentStore} (event : StoreEvent) :
      Lives hash identity passed store →
      Permitted identity passed store event →
      Lives hash identity (store :: passed) (store.experience hash identity event)

variable {hash : ContentHash} {identity : NodeIdentity} {scope : MembershipScope}
variable {store next : AgentStore} {passed : List AgentStore}
variable {usedBytes : ℕ} {commit : CatalogCommit}
variable {record : CatalogRecord} {nodeId : String}

/-- How a step moves the records of a node: its epoch in the membership does not fall, and
a new record of the node carries an epoch that the membership has reached. -/
structure Follows (nodeId : String) (store next : AgentStore) : Prop where
  epoch : ∀ {epoch}, store.EpochReached nodeId epoch → next.EpochReached nodeId epoch
  logged : ∀ record ∈ next.catalogOperations, record.ownerNodeId = nodeId →
    record ∈ store.catalogOperations ∨ store.EpochReached nodeId record.ownerEpoch

theorem Follows.refl (nodeId : String) (store : AgentStore) : Follows nodeId store store where
  epoch reached := reached
  logged _ member _ := Or.inl member

theorem follows_of_same
    (membership : next.membership.winners = store.membership.winners)
    (catalog : ∀ record ∈ next.catalogOperations, record ∈ store.catalogOperations) :
    Follows nodeId store next where
  epoch reached := by rwa [EpochReached, membership]
  logged record member _ := Or.inl (catalog record member)

/-- The membership never loses an epoch that it has reached. -/
theorem Sound.follows_applyMembership
    (sound : store.Sound hash scope)
    (accepted : store.applyMembership hash scope usedBytes member = .ok (outcome, next)) :
    Follows nodeId store next := by
  obtain ⟨after, ingests, rfl⟩ := sound.applyMembership_eq_ok_iff.mp accepted
  refine ⟨fun {epoch} reached => ?_, fun record logged _ => Or.inl logged⟩
  obtain ⟨before, stands, le⟩ := reached
  rcases ingests.same_or_step with rfl | step
  · exact ⟨before, stands, le⟩
  · obtain ⟨later, laterStands, kept⟩ :=
      MembershipView.advances_of_step step nodeId before stands
    refine ⟨later, laterStands, ?_⟩
    rcases kept with rfl | succeeds
    · exact le
    · exact le.trans (MembershipView.epoch_le_of_order_lt succeeds.order_lt)

/-- A catalog record moves a store along if it is not the node's own or carries an epoch
that the membership has reached. -/
theorem Sound.follows_applyCatalog
    (sound : store.Sound hash scope)
    {membership : MembershipView}
    {outcome : Outcome}
    (accepted : store.applyCatalog hash scope usedBytes membership record provenance =
      .ok (outcome, next))
    (reached : record.verify provenance scope membership = .ok () →
      record.ownerNodeId = nodeId → store.EpochReached nodeId record.ownerEpoch) :
    Follows nodeId store next := by
  obtain ⟨after, ingests, rfl⟩ := sound.applyCatalog_eq_ok_iff.mp accepted
  refine ⟨fun reached => reached, fun logged member own => ?_⟩
  rcases ingests.logged_cases member with before | ⟨rfl, unbarred⟩
  · exact Or.inl before
  · exact Or.inr (reached (not_not.mp fun refused => unbarred (Or.inl refused)) own)

theorem Sound.follows_takeCatalog
    (sound : store.Sound hash scope)
    (reached : ∀ membership : MembershipView,
      membership.records = store.membership.winners →
      record.verify provenance scope membership = .ok () →
      record.ownerNodeId = nodeId → store.EpochReached nodeId record.ownerEpoch) :
    Follows nodeId store (store.takeCatalog hash scope usedBytes record provenance) := by
  obtain ⟨membership, rebuilt, records, _⟩ := sound.fromRecords_membership
  simp only [takeCatalog, rebuilt]
  exact Fallible.keep_of (Follows nodeId store) (.refl nodeId store) fun _ _ accepted =>
    sound.follows_applyCatalog accepted (reached membership records)

/-- The node's own member is the winner of its slot. -/
theorem Sound.localOwner_eq
    (sound : store.Sound hash identity.scope) :
    store.localOwner hash identity =
      slotsOf store.membership.winners identity.nodeId := by
  obtain ⟨membership, rebuilt, records, _⟩ := sound.fromRecords_membership
  simp only [localOwner, rebuilt, MembershipView.get, records, slotsOf]

/-- A peer that speaks for a node connects from the node's management address. -/
theorem Sound.source_of_authenticate
    (sound : store.Sound hash scope)
    {membership : MembershipView}
    (records : membership.records = store.membership.winners)
    (speaks : MembershipView.authenticate membership (.peer source) nodeId = .ok ()) :
    ∃ member, slotsOf store.membership.winners nodeId = some member ∧
      source.ip = .v4 member.managementAddress := by
  obtain ⟨ip, port⟩ := source
  cases ip with
  | v6 => simp [MembershipView.authenticate] at speaks
  | v4 address =>
      obtain ⟨peer, found, rfl⟩ := MembershipView.authenticate_peer_eq_ok_iff.mp speaks
      have matched := List.find?_some found
      obtain ⟨node, stands⟩ := mem_valuesOf.mp (List.mem_of_find?_eq_some found)
      rw [records] at stands
      have keyed : peer.nodeId = node := sound.membership.keyed node peer stands
      simp only [decide_eq_true_eq] at matched
      exact ⟨peer, keyed ▸ stands, by rw [matched]⟩

theorem Proper.takeCatalog
    (proper : store.Proper hash scope)
    {provenance : RecordProvenance} :
    (store.takeCatalog hash scope usedBytes record provenance).Proper hash scope := by
  unfold AgentStore.takeCatalog
  split
  · exact proper
  · exact Fallible.keep_of (AgentStore.Proper hash scope) proper
      fun _ _ => proper.applyCatalog

/-- Every event keeps a store proper. -/
theorem Proper.experience
    (proper : store.Proper hash identity.scope)
    (event : StoreEvent) :
    (store.experience hash identity event).Proper hash identity.scope := by
  cases event with
  | membershipPush usedBytes record => exact proper.step (.applyMembership usedBytes record)
  | desiredApply usedBytes membership record provenance =>
      exact proper.step (.applyDesired usedBytes membership record provenance)
  | catalogCommit =>
      exact Fallible.keep_of (AgentStore.Proper hash identity.scope) proper
        fun _ _ committed => (proper.catalogCommit_frame committed).1
  | restate => exact proper.takeCatalog
  | receive => exact proper.takeCatalog
  | restore => exact proper.takeCatalog
  | compact => exact proper.step .compactOperations
  | reopen => exact proper.step .reopen
  | setSoftQuotaBytes quotaBytes => exact proper.step (.setSoftQuotaBytes quotaBytes)

/-- A commit carries the epoch of the node's member. -/
theorem Proper.follows_catalogCommit
    (proper : store.Proper hash identity.scope)
    (committed : store.catalogCommit hash identity usedBytes commit = .ok (record, next)) :
    Follows identity.nodeId store next := by
  obtain ⟨address, owner, membership, outcome, localMember, _, rfl, applied⟩ :=
    applyCatalog_of_catalogCommit committed
  rw [proper.sound.localOwner_eq] at localMember
  exact proper.sound.follows_applyCatalog applied fun _ _ => ⟨owner, localMember, le_rfl⟩

/-- What holds of the stores that a node passes: they are proper, and the membership has
reached the epoch of every record of the node that was ever logged. -/
structure Governed
    (hash : ContentHash)
    (identity : NodeIdentity)
    (passed : List AgentStore)
    (store : AgentStore) : Prop where
  proper : ∀ earlier ∈ store :: passed, earlier.Proper hash identity.scope
  reached : ∀ earlier ∈ store :: passed, ∀ record ∈ earlier.catalogOperations,
    record.ownerNodeId = identity.nodeId →
      store.EpochReached identity.nodeId record.ownerEpoch

/-- Every permitted event moves the records of the node along. -/
theorem Governed.follows
    (governed : Governed hash identity passed store)
    (permitted : Permitted identity passed store event) :
    Follows identity.nodeId store (store.experience hash identity event) := by
  have proper := governed.proper store List.mem_cons_self
  cases event with
  | membershipPush =>
      exact Fallible.keep_of (Follows identity.nodeId store) (.refl _ store)
        fun _ _ => proper.sound.follows_applyMembership
  | desiredApply =>
      refine Fallible.keep_of (Follows identity.nodeId store) (.refl _ store)
        fun _ next accepted => ?_
      rw [applyDesired_frame accepted]
      exact follows_of_same rfl fun _ member => member
  | catalogCommit =>
      exact Fallible.keep_of (Follows identity.nodeId store) (.refl _ store)
        fun _ _ => proper.follows_catalogCommit
  | restate _ original =>
      obtain ⟨own, earlier, isPassed, read⟩ := permitted
      obtain ⟨deployment, stands⟩ := mem_latestCatalog.mp read
      have logged := (governed.proper earlier isPassed).sound.catalog.logged stands
      exact proper.sound.follows_takeCatalog fun _ _ _ _ =>
        governed.reached earlier isPassed original logged own
  | receive =>
      refine proper.sound.follows_takeCatalog fun membership records verified own => ?_
      have speaks := (CatalogRecord.verify_eq_ok_iff.mp verified).2
      rw [own] at speaks
      obtain ⟨member, stands, address⟩ := proper.sound.source_of_authenticate records speaks
      exact absurd address (permitted own member stands)
  | restore => exact proper.sound.follows_takeCatalog fun _ _ _ own => permitted own
  | compact => exact follows_of_same rfl fun _ => List.mem_of_mem_filter
  | reopen => exact follows_of_same rfl fun _ member => member
  | setSoftQuotaBytes => exact follows_of_same rfl fun _ member => member

/-- The stores that a node passes are governed. -/
theorem Lives.governed (lives : Lives hash identity passed store) :
    Governed hash identity passed store := by
  induction lives with
  | fresh =>
      refine ⟨fun earlier member => ?_, fun earlier member record logged _ => ?_⟩
      · obtain rfl := List.mem_singleton.mp member
        exact ⟨sound_empty, fitting_empty⟩
      · obtain rfl := List.mem_singleton.mp member
        simp [catalogOperations, empty, Ledger.empty] at logged
  | step event _ permitted governed =>
      have follows := governed.follows permitted
      have proper := (governed.proper _ List.mem_cons_self).experience event
      refine ⟨?_, ?_⟩
      · exact List.forall_mem_cons.mpr ⟨proper, governed.proper⟩
      · refine List.forall_mem_cons.mpr ⟨fun record member own => ?_, ?_⟩
        · rcases follows.logged record member own with before | reached
          · exact follows.epoch (governed.reached _ List.mem_cons_self record before own)
          · exact follows.epoch reached
        · exact fun earlier isPassed record member own =>
            follows.epoch (governed.reached earlier isPassed record member own)

/-- The node's records stand at epochs up to the one that its next commit carries. -/
theorem Governed.epoch_le
    (governed : Governed hash identity passed store)
    (localMember : store.localOwner hash identity = some owner)
    (stands : slotsOf store.catalog.winners deployment = some current)
    (own : current.ownerNodeId = identity.nodeId) :
    current.ownerEpoch ≤ owner.ownerEpoch := by
  have sound := (governed.proper store List.mem_cons_self).sound
  rw [sound.localOwner_eq] at localMember
  obtain ⟨member, memberStands, le⟩ :=
    governed.reached store List.mem_cons_self current (sound.catalog.logged stands) own
  obtain rfl := Option.some.inj (localMember.symm.trans memberStands)
  exact le

/-- Every standing record of the replica is behind the record of a commit. -/
theorem Governed.recordOrder_lt
    (governed : Governed hash identity passed store)
    (committed : store.catalogCommit hash identity usedBytes commit = .ok (record, next))
    (stands : slotsOf store.catalog.winners deployment = some current)
    (replica : current.replicaId = commit.replicaId) :
    current.recordOrder < record.recordOrder := by
  obtain ⟨address, owner, membership, outcome, localMember, unfenced, rfl, applied⟩ :=
    applyCatalog_of_catalogCommit committed
  have fitting := (governed.proper store List.mem_cons_self).fitting
  have revision := fitting.revision_lt_nextCatalogRevision stands
  rw [replica] at revision
  have epoch : current.ownerEpoch ≤ owner.ownerEpoch := by
    by_cases own : current.ownerNodeId = identity.nodeId
    · exact governed.epoch_le localMember stands own
    · have behind := List.any_eq_false.mp unfenced current (mem_latestCatalog.mpr ⟨_, stands⟩)
      simp only [replica, own, decide_true, ne_eq, not_false_eq_true, Bool.true_and,
        decide_eq_true_eq] at behind
      omega
  simp only [CatalogRecord.recordOrder, Rank.of_lt_of, nextCatalog]
  omega

/-- The standing record of the deployment yields to a commit of its own node and replica. -/
theorem Governed.yields
    (governed : Governed hash identity passed store)
    (recorded : ∀ current ∈ store.latestCatalog,
      current.deploymentId = commit.deploymentId →
        current.replicaId = commit.replicaId ∧ current.ownerNodeId = identity.nodeId) :
    store.Yields hash identity commit := by
  intro current stands
  have keyed := (governed.proper store List.mem_cons_self).sound.catalog.keyed _ _ stands
  obtain ⟨replica, own⟩ := recorded current (mem_latestCatalog.mpr ⟨_, stands⟩) keyed
  exact ⟨replica, fun owner localMember => governed.epoch_le localMember stands own⟩

end AgentStore

namespace AgentApi

open AgentStore

/-- Whatever a node's store has been through, a commit that the agent confirms, for a
deployment that is new or recorded for the same replica by this node, is the record of its
deployment from then on.  It is ahead of all other deployments of its replica, and if it
is active and healthy, it is the one that the catalog serves for the replica. -/
theorem committed_record_takes_effect
    (hash : ContentHash)
    (identity : NodeIdentity)
    (usedBytes : ℕ)
    (passed : List AgentStore)
    (api next : AgentApi)
    (commit : CatalogCommit)
    (record : CatalogRecord)
    (configured : api.catalogIdentity = some identity)
    (lives : Lives hash identity passed api.store)
    (recorded : ∀ current ∈ api.store.latestCatalog,
      current.deploymentId = commit.deploymentId →
        current.replicaId = commit.replicaId ∧ current.ownerNodeId = identity.nodeId)
    (distinct : ∀ logged ∈ api.store.catalogOperations,
      hash.catalog logged = hash.catalog record → logged = record)
    (handled : api.handle hash usedBytes (.catalogCommit commit) =
      (.ok (.catalogCommitted record), next)) :
    (∀ other, other ∈ next.store.latestCatalog ∧
        other.deploymentId = commit.deploymentId ↔ other = record) ∧
      record.replicaId = commit.replicaId ∧
      (∀ other ∈ next.store.latestCatalog, other.replicaId = commit.replicaId →
        other ≠ record → other.recordOrder < record.recordOrder) ∧
      (record.Serving → ∀ membership : MembershipView, ∃ view,
        CatalogView.fromRecords hash.catalog
          (next.store.catalogOperations.map fun record => (record, .verified))
          identity.scope membership = .ok view ∧
        ∀ other, other ∈ CatalogView.activeHealthy view ∧
          other.replicaId = commit.replicaId ↔ other = record) := by
  obtain ⟨error, contra, _⟩ | ⟨found, _, store, known, committed, answered, rfl⟩ :=
    handle_catalogCommit_cases handled
  · simp at contra
  obtain rfl := ResponseBody.catalogCommitted.inj (Except.ok.inj answered)
  obtain rfl := Option.some.inj (configured.symm.trans known)
  have governed := lives.governed
  have proper := governed.proper _ List.mem_cons_self
  have wins := proper.catalogCommit_wins (governed.yields recorded) distinct committed
  have sound := (proper.catalogCommit_frame committed).1.sound
  obtain ⟨address, owner, _, _, _, _, written, _⟩ := applyCatalog_of_catalogCommit committed
  have deployment : record.deploymentId = commit.deploymentId := by rw [written]; rfl
  have replica : record.replicaId = commit.replicaId := by rw [written]; rfl
  have stands : slotsOf store.catalog.winners commit.deploymentId = some record := by
    rw [wins, Function.update_self]
  have alone : ∀ other, other ∈ store.latestCatalog ∧
      other.deploymentId = commit.deploymentId → other = record := by
    rintro other ⟨member, same⟩
    obtain ⟨key, otherStands⟩ := mem_latestCatalog.mp member
    have keyed : other.deploymentId = key := sound.catalog.keyed key other otherStands
    rw [← keyed, same, stands] at otherStands
    exact (Option.some.inj otherStands).symm
  have ahead : ∀ key other, slotsOf store.catalog.winners key = some other →
      other.replicaId = commit.replicaId → other ≠ record →
        other.recordOrder < record.recordOrder := by
    intro key other otherStands sameReplica different
    by_cases same : key = commit.deploymentId
    · rw [same, stands] at otherStands
      exact absurd (Option.some.inj otherStands).symm different
    · rw [wins, Function.update_of_ne same] at otherStands
      exact governed.recordOrder_lt committed otherStands sameReplica
  refine ⟨fun other => ⟨alone other, ?_⟩, replica, ?_, ?_⟩
  · rintro rfl
    exact ⟨mem_latestCatalog.mpr ⟨_, stands⟩, deployment⟩
  · intro other member sameReplica different
    obtain ⟨key, otherStands⟩ := mem_latestCatalog.mp member
    exact ahead key other otherStands sameReplica different
  · intro serving membership
    obtain ⟨view, rebuilt, records, _⟩ := sound.fromRecords_catalog membership
    refine ⟨view, rebuilt, fun other => ?_⟩
    have slots : view.slots = slotsOf store.catalog.winners := by
      rw [RecordView.slots, records]
    have keyed : ∀ key current, view.slots key = some current →
        current.deploymentId = key := slots ▸ sound.catalog.keyed
    have serves : slotsOf (activeHealthyByReplica (valuesOf view.records))
        commit.replicaId = some record := by
      refine (CatalogView.activeHealthyByReplica_eq_some_iff keyed).mpr
        ⟨by rw [slots, deployment, stands], serving, replica, ?_⟩
      intro current currentStands _ sameReplica
      rw [slots] at currentStands
      by_cases same : current = record
      · rw [same]
      · exact (ahead _ current currentStands sameReplica same).le
    constructor
    · rintro ⟨member, sameReplica⟩
      obtain ⟨key, otherServes⟩ := CatalogView.mem_activeHealthy.mp member
      have otherReplica :=
        ((CatalogView.activeHealthyByReplica_eq_some_iff keyed).mp otherServes).2.2.1
      rw [← otherReplica, sameReplica, serves] at otherServes
      exact (Option.some.inj otherServes).symm
    · rintro rfl
      exact ⟨CatalogView.mem_activeHealthy.mpr ⟨_, serves⟩, replica⟩

/-- A letter for each state and each health. -/
def stateLetter : DeploymentState → Char
  | .candidate => 'c'
  | .active => 'a'
  | .draining => 'd'
  | .stopped => 's'
  | .tombstoned => 't'

def healthLetter : HealthState → Char
  | .unknown => 'u'
  | .healthy => 'h'
  | .unhealthy => 'n'

/-- Content hashes that spell out what a commit can change. -/
def spelledHash : ContentHash where
  membership _ := ""
  catalog record := String.ofList (record.deploymentId.toList ++
    stateLetter record.state :: healthLetter record.health :: record.revision.repr.toList)
  desired _ := ""

/-- A commit of an active and healthy deployment of the first replica. -/
def servingCommit (deploymentId : String) : CatalogCommit where
  service := "web"
  replicaId := "web-1"
  deploymentId := deploymentId
  address := "10.211.1.2"
  ports := [80]
  image := "web:1"
  state := .active
  health := .healthy

/-- A member joins and deploys once. -/
def deployedOnce : AgentStore :=
  [StoreEvent.membershipPush 0 (sampleMember "a" "alpha" 1 1 1 .active),
    .catalogCommit 0 (servingCommit "d1")].foldl (experience spelledHash ⟨"p", 1, "a"⟩) .empty

/-- An agent with that store. -/
def deployedApi (store : AgentStore) : AgentApi where
  store := store
  leases := .empty
  responses := ∅
  retentionSpecs := []
  catalogIdentity := some ⟨"p", 1, "a"⟩

/-- The second deployment of the replica takes over from the first. -/
theorem committed_record_takes_effect_second :
    ∃ record next,
      (deployedApi deployedOnce).handle spelledHash 0
        (.catalogCommit (servingCommit "d2")) = (.ok (.catalogCommitted record), next) ∧
      record.Serving ∧ record.revision = 2 ∧ next.store.latestCatalog.length = 2 ∧
      (∀ other, other ∈ next.store.latestCatalog ∧ other.deploymentId = "d2" ↔
        other = record) ∧
      (∀ other ∈ next.store.latestCatalog, other.replicaId = "web-1" →
        other ≠ record → other.recordOrder < record.recordOrder) := by
  have lives : Lives spelledHash ⟨"p", 1, "a"⟩
      [experience spelledHash ⟨"p", 1, "a"⟩ .empty
        (.membershipPush 0 (sampleMember "a" "alpha" 1 1 1 .active)), .empty]
      deployedOnce :=
    ((Lives.fresh.step (.membershipPush 0 (sampleMember "a" "alpha" 1 1 1 .active))
      trivial).step (.catalogCommit 0 (servingCommit "d1")) trivial)
  have answered : ((deployedApi deployedOnce).handle spelledHash 0
      (.catalogCommit (servingCommit "d2"))).1 =
        .ok (.catalogCommitted (sampleDeployment "d2" "web-1" "a" 1 2 .active .healthy)) := by
    decide +kernel
  have two : ((deployedApi deployedOnce).handle spelledHash 0
      (.catalogCommit (servingCommit "d2"))).2.store.latestCatalog.length = 2 := by
    decide +kernel
  have effect := committed_record_takes_effect spelledHash ⟨"p", 1, "a"⟩ 0 _
    (deployedApi deployedOnce) _ (servingCommit "d2")
    (sampleDeployment "d2" "web-1" "a" 1 2 .active .healthy) rfl lives (by decide +kernel)
    (by decide +kernel) (Prod.ext answered rfl)
  exact ⟨_, _, Prod.ext answered rfl, ⟨rfl, rfl⟩, rfl, two, effect.1, effect.2.2.1⟩

end AgentApi

end Agent
end Jiji
