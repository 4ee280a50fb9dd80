import Jiji.Agent.Exchange
import Jiji.Agent.MembershipSafety

/-!
# Convergence of a snapshot exchange

Between two stores with the same members an exchange succeeds, and brings the
receiver up to the sender's records, exactly when the receiver's guards let each
record pass that it has not logged yet.  The guards of a catalog record see the
receiver's records overlaid by those sent before it; a desired-state record also
needs every desired-state record that the receiver logged to be current.
-/

namespace Jiji
namespace Agent
namespace AgentStore

open Network Replication

variable {hash : ContentHash} {identity : NodeIdentity} {peer : SocketAddr}
variable {usedBytes : ℕ → ℕ} {membership : MembershipView}
variable {store final : AgentStore} {position : ℕ}

section Desired

variable {record : DesiredStateRecord} {batch : List DesiredStateRecord}

/-- A logged desired-state record is a duplicate. -/
theorem receiveDesired_of_logged (logged : record ∈ store.desiredOperations) :
    receiveDesired hash identity peer usedBytes membership position store record =
      .ok (.duplicate, store) := by
  have present : hash.desired record ∈ store.desired.operations.map hash.desired :=
    List.mem_map_of_mem logged
  simp [receiveDesired, applyDesired, Ledger.ingest, present, Except.map]

/-- A new desired-state record is taken exactly when it verifies and every logged
record is current. -/
theorem Sound.exists_receiveDesired_iff
    (sound : store.Sound hash identity.scope)
    (capacity : ∀ position, store.ensureReplicationCapacity (usedBytes position) = .ok ())
    (storable : desiredStorable ∅ record = true)
    (new : hash.desired record ∉ store.desired.operations.map hash.desired) :
    (∃ outcome next, receiveDesired hash identity peer usedBytes membership position store
        record = .ok (outcome, next)) ↔
      record.verify (.peer peer) identity.scope membership = .ok () ∧
        ∀ logged ∈ store.desiredOperations, logged.Current membership := by
  constructor
  · rintro ⟨outcome, next, received⟩
    rcases sound.current_of_applyDesired received with ⟨logged, _⟩ | current
    · exact absurd logged new
    · refine ⟨?_, current⟩
      obtain ⟨after, ⟨logged, _⟩ | ⟨_, _, ⟨slots, step⟩, _⟩, _⟩ :=
        (sound.applyDesired_eq_ok_iff current).mp received
      · exact absurd logged new
      · exact DesiredStateView.admits_of_run (.cons step .nil) record (by simp)
  · rintro ⟨verified, current⟩
    have accepts : (DesiredStateView.rules hash.desired fun record =>
        record.verify (.peer peer) identity.scope membership = .ok ()).Accepts
          (desiredStorable ∅) (slotsOf store.desired.winners) record :=
      ⟨not_not.mpr verified, fun _ => ⟨id, storable⟩⟩
    obtain ⟨outcome, step, fits⟩ := Rules.accepts_iff.mp accepts
    exact ⟨outcome, _, (sound.applyDesired_eq_ok_iff current).mpr
      ⟨_, Or.inr ⟨new, capacity position, step, fits, rfl⟩, rfl⟩⟩

/-- A new desired-state record is logged when it is taken. -/
theorem Sound.mem_desiredOperations_of_received
    (sound : store.Sound hash identity.scope)
    (received : receiveDesired hash identity peer usedBytes membership position store
      record = .ok (outcome, next))
    (new : hash.desired record ∉ store.desired.operations.map hash.desired)
    (other : DesiredStateRecord) :
    other ∈ next.desiredOperations ↔ other ∈ store.desiredOperations ∨ other = record := by
  rcases sound.current_of_applyDesired received with ⟨logged, _⟩ | current
  · exact absurd logged new
  · obtain ⟨after, ⟨logged, _⟩ | ⟨_, _, _, _, rfl⟩, rfl⟩ :=
      (sound.applyDesired_eq_ok_iff current).mp received
    · exact absurd logged new
    · simp [desiredOperations, Ledger.append]

/-- Distinct desired-state records are taken exactly when each one that is not
logged verifies while every logged record is current. -/
theorem Sound.exists_path_receiveDesired_iff
    (sound : store.Sound hash identity.scope)
    (capacity : ∀ position, store.ensureReplicationCapacity (usedBytes position) = .ok ())
    (storable : ∀ record ∈ batch, desiredStorable ∅ record = true)
    (injective : Set.InjOn hash.desired
      {record | record ∈ store.desiredOperations ∨ record ∈ batch})
    (distinct : batch.Nodup) :
    (∃ final, Fallible.Path (receiveDesired hash identity peer usedBytes membership)
        position store batch final) ↔
      ∀ record ∈ batch, record ∉ store.desiredOperations →
        record.verify (.peer peer) identity.scope membership = .ok () ∧
          ∀ logged ∈ store.desiredOperations, logged.Current membership := by
  induction batch generalizing position store with
  | nil => exact ⟨fun _ => by simp, fun _ => ⟨store, .nil⟩⟩
  | cons record batch inductionHypothesis =>
      rw [List.nodup_cons] at distinct
      rw [List.forall_mem_cons] at storable
      rw [Fallible.exists_path_cons_iff, List.forall_mem_cons]
      by_cases logged : record ∈ store.desiredOperations
      · have received : receiveDesired hash identity peer usedBytes membership position store
            record = .ok (.duplicate, store) := receiveDesired_of_logged logged
        have tail : (∃ final, Fallible.Path _ (position + 1) store batch final) ↔ _ :=
          inductionHypothesis sound capacity storable.2
            (injective.mono fun other present => present.imp_right (List.mem_cons_of_mem _))
            distinct.2
        constructor
        · rintro ⟨outcome, next, accepted, rest⟩
          rw [received, Except.ok.injEq, Prod.mk.injEq] at accepted
          obtain ⟨_, rfl⟩ := accepted
          exact ⟨fun new => absurd logged new, tail.mp rest⟩
        · rintro ⟨_, rest⟩
          exact ⟨.duplicate, store, received, tail.mpr rest⟩
      · have new : hash.desired record ∉ store.desired.operations.map hash.desired := by
          intro present
          obtain ⟨other, member, same⟩ := List.mem_map.mp present
          exact logged (injective (Or.inl member) (Or.inr List.mem_cons_self) same ▸ member)
        have fresh : ∀ other ∈ batch, other ≠ record := fun other member same =>
          distinct.1 (same ▸ member)
        have tail : ∀ {outcome next}, receiveDesired hash identity peer usedBytes membership
            position store record = .ok (outcome, next) →
            (∀ other, other ∈ next.desiredOperations ↔
              other ∈ store.desiredOperations ∨ other = record) ∧
            ((∃ final, Fallible.Path (receiveDesired hash identity peer usedBytes membership)
              (position + 1) next batch final) ↔
              ∀ other ∈ batch, other ∉ next.desiredOperations →
                other.verify (.peer peer) identity.scope membership = .ok () ∧
                  ∀ logged ∈ next.desiredOperations, logged.Current membership) := by
          intro outcome next received
          have members := sound.mem_desiredOperations_of_received received new
          refine ⟨members, inductionHypothesis (sound.applyDesired received) ?_ storable.2
            (injective.mono fun other present => ?_) distinct.2⟩
          · rw [applyDesired_frame received]
            exact capacity
          · rcases present with logged | later
            · rcases (members other).mp logged with logged | rfl
              · exact Or.inl logged
              · exact Or.inr List.mem_cons_self
            · exact Or.inr (List.mem_cons_of_mem _ later)
        constructor
        · rintro ⟨outcome, next, received, rest⟩
          obtain ⟨members, restIff⟩ := tail received
          have verified :=
            (sound.exists_receiveDesired_iff capacity storable.1 new).mp ⟨_, _, received⟩
          refine ⟨fun _ => verified, fun other member unlogged => ⟨?_, verified.2⟩⟩
          refine (restIff.mp rest other member fun present => ?_).1
          exact ((members other).mp present).elim unlogged (fresh other member)
        · rintro ⟨head, rest⟩
          obtain ⟨verified, current⟩ := head logged
          obtain ⟨outcome, next, received⟩ :=
            (sound.exists_receiveDesired_iff capacity storable.1 new).mpr ⟨verified, current⟩
          obtain ⟨members, restIff⟩ := tail received
          refine ⟨outcome, next, received, restIff.mpr fun other member unlogged => ⟨?_, ?_⟩⟩
          · exact (rest other member fun present =>
              unlogged ((members other).mpr (Or.inl present))).1
          · intro earlier present
            rcases (members earlier).mp present with present | rfl
            · exact current earlier present
            · exact (DesiredStateRecord.verify_eq_ok_iff.mp verified).2.2

end Desired

section Catalog

variable {record : CatalogRecord} {batch : List CatalogRecord}

/-- A distinct record is taken after the earlier ones of its batch exactly when it
is logged, or it verifies and passes the guards. -/
theorem admits_peerRules_iff
    (capacity : ∀ position, store.ensureReplicationCapacity (usedBytes position) = .ok ())
    (storable : catalogStorable ∅ record = true)
    (authentic : record.Authentic identity.scope)
    (injective : Set.InjOn hash.catalog
      {other | other ∈ store.catalogOperations ∨ other ∈ earlier ∨ other = record})
    (distinct : record ∉ earlier) :
    store.catalog.Admits (peerRules hash identity peer membership) hash.catalog
        (catalogStorable ∅)
        (fun position => store.ensureReplicationCapacity (usedBytes position)) position
        earlier record ↔
      (record ∉ store.catalogOperations →
        MembershipView.authenticate membership (.peer peer) record.ownerNodeId = .ok () ∧
          Passes hash (store.standing hash earlier) record) := by
  have logged : hash.catalog record ∈
      (store.catalog.operations ++ earlier).map hash.catalog ↔
        record ∈ store.catalogOperations := by
    rw [List.mem_map]
    constructor
    · rintro ⟨other, present, same⟩
      rcases List.mem_append.mp present with member | member
      · exact injective (Or.inl member) (Or.inr (Or.inr rfl)) same ▸ member
      · exact absurd (injective (Or.inr (Or.inl member)) (Or.inr (Or.inr rfl)) same ▸ member)
          distinct
    · exact fun member => ⟨record, List.mem_append_left _ member, rfl⟩
  have accepts : (peerRules hash identity peer membership).Accepts (catalogStorable ∅)
      (store.standing hash earlier) record ↔
        MembershipView.authenticate membership (.peer peer) record.ownerNodeId = .ok () ∧
          Passes hash (store.standing hash earlier) record := by
    simp only [Rules.Accepts, CatalogView.rules, CatalogRecord.verify_eq_ok_iff, authentic,
      storable, true_and, and_true, not_or, not_not]
    constructor
    · rintro ⟨⟨attributed, unfenced, current⟩, lawful⟩
      exact ⟨attributed, unfenced, current, lawful⟩
    · rintro ⟨attributed, unfenced, current, lawful⟩
      exact ⟨⟨attributed, unfenced, current⟩, lawful⟩
  rw [Ledger.Admits, logged, capacity, ← accepts]
  simp only [true_and]
  exact or_iff_not_imp_left

end Catalog

namespace Snapshot

variable {record : CatalogRecord}

/-- A sent catalog record wins its deployment in the sender's store. -/
theorem mem_operations
    (sound : store.Sound hash identity.scope)
    (fitting : store.Fitting)
    (sent : record ∈ (Exchange.snapshot store identity).operations) :
    record ∈ store.catalogOperations ∧ record.ownerNodeId = identity.nodeId ∧
      record.Authentic identity.scope ∧ catalogStorable ∅ record = true := by
  simp only [Exchange.snapshot, List.mem_filter, decide_eq_true_eq] at sent
  obtain ⟨deployment, stands⟩ := mem_latestCatalog.mp sent.1
  have logged := sound.catalog.logged stands
  exact ⟨logged, sent.2, CatalogView.admits_of_run sound.catalog.run record logged,
    fitting.catalog deployment record stands⟩

theorem mem_desiredOperations
    {record : DesiredStateRecord}
    (sound : store.Sound hash identity.scope)
    (fitting : store.Fitting)
    (sent : record ∈ (Exchange.snapshot store identity).desiredOperations) :
    record ∈ store.desiredOperations ∧ record.authorNodeId = identity.nodeId ∧
      record.Authentic identity.scope ∧ desiredStorable ∅ record = true := by
  simp only [Exchange.snapshot, List.mem_filter, decide_eq_true_eq] at sent
  obtain ⟨service, stands⟩ := mem_valuesOf.mp sent.1
  have logged := sound.desired.logged stands
  exact ⟨logged, sent.2, DesiredStateView.admits_of_run sound.desired.run record logged,
    fitting.desired service record stands⟩

theorem operations_nodup (sound : store.Sound hash identity.scope) :
    (Exchange.snapshot store identity).operations.Nodup :=
  sound.latestCatalog_nodup.filter _

theorem desiredOperations_nodup (sound : store.Sound hash identity.scope) :
    (Exchange.snapshot store identity).desiredOperations.Nodup :=
  (valuesOf_nodup sound.desired.keyed).filter _

end Snapshot

/-- The receiver takes every record of an exchange from a member's address. -/
structure Replicable
    (hash : ContentHash)
    (member : MembershipRecord)
    (store : AgentStore)
    (exchange : Exchange) : Prop where
  attributed :
    (∃ record ∈ exchange.operations, record ∉ store.catalogOperations) ∨
      (∃ record ∈ exchange.desiredOperations, record ∉ store.desiredOperations) →
    ∀ other ∈ store.latestMembership,
      other.managementAddress = member.managementAddress → ¬other.nodeId < member.nodeId
  catalog : ∀ earlier record later, exchange.operations = earlier ++ record :: later →
    record ∉ store.catalogOperations → Passes hash (store.standing hash earlier) record
  desired : ∀ record ∈ exchange.desiredOperations, record ∉ store.desiredOperations →
    record.authorEpoch = member.ownerEpoch ∧
      ∀ logged ∈ store.desiredOperations, ∃ author ∈ store.latestMembership,
        author.nodeId = logged.authorNodeId ∧ author.ownerEpoch = logged.authorEpoch

/-- An exchange succeeded, and the receiver's catalog holds a record at least as
late as each one that the sender owns. -/
def Converged
    (hash : ContentHash)
    (sender : String)
    (source : AgentStore)
    (after : Except CatalogReplicationError Unit × AgentStore) : Prop :=
  after.1 = .ok () ∧
    ∀ record ∈ source.latestCatalog, record.ownerNodeId = sender →
      ∃ current ∈ after.2.latestCatalog, current.deploymentId = record.deploymentId ∧
        record.order hash.catalog ≤ current.order hash.catalog

section Exchange

variable {sender : NodeIdentity} {source : AgentStore}

/-- The sent catalog records are taken exactly when each new one is attributed to
its owner and passes the guards. -/
theorem exists_path_snapshot_iff
    (sourceSound : source.Sound hash sender.scope)
    (fitting : source.Fitting)
    (sound : store.Sound hash identity.scope)
    (sameScope : sender.scope = identity.scope)
    (capacity : ∀ position, store.ensureReplicationCapacity (usedBytes position) = .ok ())
    (injective : Set.InjOn hash.catalog
      {record | record ∈ source.catalogOperations ∨ record ∈ store.catalogOperations}) :
    (∃ middle, Fallible.Path (receiveCatalog hash identity peer usedBytes membership) 0
        store (Exchange.snapshot source sender).operations middle) ↔
      ∀ earlier record later,
        (Exchange.snapshot source sender).operations = earlier ++ record :: later →
        record ∉ store.catalogOperations →
          MembershipView.authenticate membership (.peer peer) sender.nodeId = .ok () ∧
            Passes hash (store.standing hash earlier) record := by
  have sent : ∀ record ∈ (Exchange.snapshot source sender).operations, _ := fun _ =>
    Snapshot.mem_operations sourceSound fitting
  have distinct := Snapshot.operations_nodup sourceSound
  generalize (Exchange.snapshot source sender).operations = batch at sent distinct
  have dominated : store.catalog.Dominated (peerRules hash identity peer membership) :=
    sound.catalog.dominated rfl rfl
  have batchInjective : Set.InjOn hash.catalog
      {record | record ∈ store.catalog.operations ∨ record ∈ batch} :=
    injective.mono fun record present =>
      present.elim Or.inr fun member => Or.inl (sent record member).1
  have paths : (∃ middle, Fallible.Path
      (receiveCatalog hash identity peer usedBytes membership) 0 store batch middle) ↔
        ∃ ledger, Ledger.Takes (peerRules hash identity peer membership) hash.catalog
          (catalogStorable ∅)
          (fun position => store.ensureReplicationCapacity (usedBytes position))
          0 store.catalog batch ledger := by
    simp only [sound.path_receiveCatalog_iff]
    constructor
    · rintro ⟨_, ledger, takes, _⟩
      exact ⟨ledger, takes⟩
    · rintro ⟨ledger, takes⟩
      exact ⟨_, ledger, takes, rfl⟩
  rw [paths, Ledger.exists_takes_iff dominated batchInjective]
  refine forall_congr' fun earlier => forall_congr' fun record => forall_congr' fun later =>
    imp_congr_right fun split => ?_
  subst split
  obtain ⟨_, owner, authentic, storable⟩ := sent record (by simp)
  rw [List.nodup_append, List.nodup_cons] at distinct
  rw [admits_peerRules_iff capacity storable (sameScope ▸ authentic), owner]
  · refine batchInjective.mono fun other present => ?_
    rcases present with logged | member | rfl
    · exact Or.inl logged
    · exact Or.inr (List.mem_append_left _ member)
    · exact Or.inr (by simp)
  · exact fun member => distinct.2.2 record member record List.mem_cons_self rfl

/-- After the sent catalog records were taken, the receiver holds records at least
as late. -/
theorem dominates_of_path
    (sound : store.Sound hash identity.scope)
    (injective : Set.InjOn hash.catalog
      {record | record ∈ store.catalogOperations ∨ record ∈ batch})
    (path : Fallible.Path (receiveCatalog hash identity peer usedBytes membership) 0 store
      batch middle) :
    ∀ record ∈ batch, ∃ current ∈ middle.latestCatalog,
      current.deploymentId = record.deploymentId ∧
        record.order hash.catalog ≤ current.order hash.catalog := by
  intro record member
  have middleSound := sound.path_receiveCatalog path
  obtain ⟨ledger, takes, rfl⟩ := sound.path_receiveCatalog_iff.mp path
  obtain ⟨_, dominated, logged⟩ :=
    takes.overlays (sound.catalog.dominated rfl rfl) injective
  obtain ⟨current, stands, bound⟩ := dominated record ((logged record).mpr (Or.inr member))
  exact ⟨current, mem_latestCatalog.mpr ⟨_, stands⟩,
    middleSound.catalog.keyed _ _ stands, bound⟩

/-- A record is current when the table of members says so. -/
theorem Sound.current_iff
    {record : DesiredStateRecord}
    (sound : store.Sound hash identity.scope)
    (records : membership.records = store.membership.winners) :
    record.Current membership ↔ ∃ author ∈ store.latestMembership,
      author.nodeId = record.authorNodeId ∧ author.ownerEpoch = record.authorEpoch := by
  unfold DesiredStateRecord.Current MembershipView.get
  rw [records]
  constructor
  · rintro ⟨author, stands, epoch⟩
    exact ⟨author, mem_valuesOf.mpr ⟨_, stands⟩, sound.membership.keyed _ _ stands, epoch⟩
  · rintro ⟨author, present, node, epoch⟩
    obtain ⟨slot, stands⟩ := mem_valuesOf.mp present
    obtain rfl : author.nodeId = slot := sound.membership.keyed _ _ stands
    exact ⟨author, node ▸ stands, epoch⟩

/-- A connection from a member's address speaks for the member when the table of
members has no smaller node with the address. -/
theorem Sound.authenticate_member_iff
    (sound : store.Sound hash identity.scope)
    (records : membership.records = store.membership.winners)
    (isMember : member ∈ store.latestMembership) :
    MembershipView.authenticate membership (.peer ⟨.v4 member.managementAddress, port⟩)
        member.nodeId = .ok () ↔
      ∀ other ∈ store.latestMembership,
        other.managementAddress = member.managementAddress →
          ¬other.nodeId < member.nodeId := by
  have slots : membership.slots = slotsOf store.membership.winners := by
    rw [RecordView.slots, records]
  obtain ⟨slot, stands⟩ := mem_valuesOf.mp isMember
  obtain rfl : member.nodeId = slot := sound.membership.keyed _ _ stands
  rw [MembershipView.authenticate_own_address_iff (slots ▸ sound.membership.keyed)
    (slots ▸ stands), slots]
  simp only [latestMembership, mem_valuesOf, forall_exists_index]
  exact ⟨fun untaken other node => untaken node other, fun untaken node other => untaken other node⟩

/-- Once the catalog records were taken, the sent desired-state records are taken
exactly when each new one is attributed to its author and of the author's epoch,
while every logged record is current. -/
theorem exists_path_desired_snapshot_iff
    {batch : List CatalogRecord}
    {middle : AgentStore}
    (sourceSound : source.Sound hash sender.scope)
    (fitting : source.Fitting)
    (sound : store.Sound hash identity.scope)
    (sameScope : sender.scope = identity.scope)
    (records : membership.records = store.membership.winners)
    (isMember : member ∈ store.latestMembership)
    (node : member.nodeId = sender.nodeId)
    (capacity : ∀ position, store.ensureReplicationCapacity (usedBytes position) = .ok ())
    (injective : Set.InjOn hash.desired
      {record | record ∈ source.desiredOperations ∨ record ∈ store.desiredOperations})
    (path : Fallible.Path (receiveCatalog hash identity peer usedBytes membership) 0 store
      batch middle) :
    (∃ final, Fallible.Path (receiveDesired hash identity peer usedBytes membership)
        position middle (Exchange.snapshot source sender).desiredOperations final) ↔
      ∀ record ∈ (Exchange.snapshot source sender).desiredOperations,
        record ∉ store.desiredOperations →
          MembershipView.authenticate membership (.peer peer) sender.nodeId = .ok () ∧
            record.authorEpoch = member.ownerEpoch ∧
            ∀ logged ∈ store.desiredOperations, ∃ author ∈ store.latestMembership,
              author.nodeId = logged.authorNodeId ∧
                author.ownerEpoch = logged.authorEpoch := by
  have middleSound := sound.path_receiveCatalog path
  obtain ⟨ledger, _, rfl⟩ := sound.path_receiveCatalog_iff.mp path
  have sent : ∀ record ∈ (Exchange.snapshot source sender).desiredOperations, _ := fun _ =>
    Snapshot.mem_desiredOperations sourceSound fitting
  rw [middleSound.exists_path_receiveDesired_iff capacity
    (fun record member => (sent record member).2.2.2)
    (injective.mono fun record present =>
      present.elim Or.inr fun member => Or.inl (sent record member).1)
    (Snapshot.desiredOperations_nodup sourceSound)]
  obtain ⟨slot, stands⟩ := mem_valuesOf.mp isMember
  obtain rfl : member.nodeId = slot := sound.membership.keyed _ _ stands
  have found : MembershipView.get membership sender.nodeId = some member := by
    rw [MembershipView.get, records, ← node]
    exact stands
  refine forall_congr' fun record => forall_congr' fun isSent => imp_congr_right fun _ => ?_
  obtain ⟨_, author, authentic, _⟩ := sent record isSent
  have current : record.Current membership ↔ record.authorEpoch = member.ownerEpoch := by
    simp [DesiredStateRecord.Current, author, found, eq_comm]
  rw [DesiredStateRecord.verify_eq_ok_iff, author, current, and_assoc, and_assoc]
  simp only [sameScope ▸ authentic, true_and, sound.current_iff records]
  rfl

/-- The records of a snapshot are all taken exactly when it is replicable. -/
theorem receive_snapshot_ok_iff
    (sourceSound : source.Sound hash sender.scope)
    (fitting : source.Fitting)
    (sound : store.Sound hash identity.scope)
    (sameScope : sender.scope = identity.scope)
    (records : membership.records = store.membership.winners)
    (isMember : member ∈ store.latestMembership)
    (node : member.nodeId = sender.nodeId)
    (capacity : ∀ position, store.ensureReplicationCapacity (usedBytes position) = .ok ())
    (catalogInjective : Set.InjOn hash.catalog
      {record | record ∈ source.catalogOperations ∨ record ∈ store.catalogOperations})
    (desiredInjective : Set.InjOn hash.desired
      {record | record ∈ source.desiredOperations ∨ record ∈ store.desiredOperations}) :
    (receive hash identity ⟨.v4 member.managementAddress, port⟩ usedBytes membership store
        (Exchange.snapshot source sender)).1 = .ok () ↔
      Replicable hash member store (Exchange.snapshot source sender) := by
  set peer : SocketAddr := ⟨.v4 member.managementAddress, port⟩
  have attribution : MembershipView.authenticate membership (.peer peer) sender.nodeId =
      .ok () ↔ ∀ other ∈ store.latestMembership,
        other.managementAddress = member.managementAddress →
          ¬other.nodeId < member.nodeId := by
    rw [← node]
    exact sound.authenticate_member_iff records isMember
  have catalog : (∃ middle, Fallible.Path
      (receiveCatalog hash identity peer usedBytes membership) 0 store _ middle) ↔ _ :=
    exists_path_snapshot_iff sourceSound fitting sound sameScope capacity catalogInjective
  rw [receive_ok_iff]
  constructor
  · rintro ⟨middle, final, path, desiredPath⟩
    have catalogPasses := catalog.mp ⟨middle, path⟩
    have desiredPasses := (exists_path_desired_snapshot_iff sourceSound fitting sound
      sameScope records isMember node capacity desiredInjective path).mp ⟨final, desiredPath⟩
    refine ⟨?_, fun earlier record later split new => (catalogPasses _ _ _ split new).2,
      fun record isSent new => (desiredPasses record isSent new).2⟩
    rintro (⟨record, isSent, new⟩ | ⟨record, isSent, new⟩)
    · obtain ⟨earlier, later, split⟩ := List.append_of_mem isSent
      exact attribution.mp (catalogPasses earlier record later split new).1
    · exact attribution.mp (desiredPasses record isSent new).1
  · intro replicable
    obtain ⟨middle, path⟩ := catalog.mpr fun earlier record later split new =>
      ⟨attribution.mpr (replicable.attributed
        (Or.inl ⟨record, by simp [split], new⟩)),
        replicable.catalog earlier record later split new⟩
    obtain ⟨final, desiredPath⟩ := (exists_path_desired_snapshot_iff sourceSound fitting sound
      sameScope records isMember node capacity desiredInjective path).mpr
        fun record isSent new => ⟨attribution.mpr (replicable.attributed
          (Or.inr ⟨record, isSent, new⟩)), replicable.desired record isSent new⟩
    exact ⟨middle, final, path, desiredPath⟩

/-- An exchange between reachable stores of one scope, sent from the address of a
member, succeeds and brings the receiver up to the sender's records precisely
when the receiver's guards let each record pass that it has not logged yet. -/
theorem applyExchange_converges_iff
    (hash : ContentHash)
    (sender receiver : NodeIdentity)
    (senderCalls receiverCalls : List StoreCall)
    (usedBytes : ℕ → ℕ)
    (member : MembershipRecord)
    (port : BitVec 16)
    (exchange : Exchange)
    (sameScope : sender.scope = receiver.scope)
    (isMember : member ∈ (run hash receiver.scope empty receiverCalls).latestMembership)
    (node : member.nodeId = sender.nodeId)
    (capacity : ∀ position,
      (run hash receiver.scope empty receiverCalls).ensureReplicationCapacity
        (usedBytes position) = .ok ())
    (catalogInjective : Set.InjOn hash.catalog
      {record | record ∈ (run hash sender.scope empty senderCalls).catalogOperations ∨
        record ∈ (run hash receiver.scope empty receiverCalls).catalogOperations})
    (desiredInjective : Set.InjOn hash.desired
      {record | record ∈ (run hash sender.scope empty senderCalls).desiredOperations ∨
        record ∈ (run hash receiver.scope empty receiverCalls).desiredOperations})
    (sent : Exchange.fromStore (run hash sender.scope empty senderCalls) sender =
      .ok exchange) :
    Converged hash sender.nodeId (run hash sender.scope empty senderCalls)
        (applyExchange hash receiver ⟨.v4 member.managementAddress, port⟩ usedBytes
          (run hash receiver.scope empty receiverCalls) exchange) ↔
      Replicable hash member (run hash receiver.scope empty receiverCalls) exchange := by
  obtain ⟨sourceSound, fitting⟩ := sound_fitting_run hash sender.scope senderCalls
  obtain ⟨sound, _⟩ := sound_fitting_run hash receiver.scope receiverCalls
  generalize run hash sender.scope empty senderCalls = source at *
  generalize run hash receiver.scope empty receiverCalls = store at *
  obtain ⟨rfl, valid⟩ := Exchange.validate_of_fromStore sent sameScope
  obtain ⟨membership, _, records, applied⟩ := sound.applyExchange_eq valid
  have replication : (receive hash receiver ⟨.v4 member.managementAddress, port⟩ usedBytes
      membership store (Exchange.snapshot source sender)).1 = .ok () ↔ _ :=
    receive_snapshot_ok_iff sourceSound fitting sound sameScope records isMember node
      capacity catalogInjective desiredInjective
  rw [Converged, applied, Fallible.mapError_eq_ok_iff, ← replication]
  refine ⟨And.left, fun succeeds => ⟨succeeds, ?_⟩⟩
  obtain ⟨middle, final, path, desiredPath⟩ := receive_ok_iff.mp succeeds
  have reached : (receive hash receiver ⟨.v4 member.managementAddress, port⟩ usedBytes
      membership store (Exchange.snapshot source sender)).2.latestCatalog =
        middle.latestCatalog := by
    rw [receive, Fallible.each_eq_of_path path]
    simp only [Fallible.each_eq_of_path desiredPath]
    rw [path_receiveDesired_frame desiredPath]
    rfl
  intro record wins owner
  have isSent : record ∈ (Exchange.snapshot source sender).operations := by
    simp [Exchange.snapshot, wins, owner]
  change ∃ current ∈ (receive _ _ _ _ _ _ _).2.latestCatalog, _
  rw [reached]
  refine dominates_of_path sound (catalogInjective.mono fun other present => ?_) path record
    isSent
  exact present.elim Or.inr fun member =>
    Or.inl (Snapshot.mem_operations sourceSound fitting member).1

end Exchange

/-- A node before and after its owner epoch was raised. -/
def rekeyedMember (ownerEpoch : ℕ) : MembershipRecord :=
  sampleMember "a" "alpha" 1 ownerEpoch 1 .active

/-- A deployment that the node committed under its first owner epoch. -/
def firstEpochDeployment : CatalogRecord :=
  sampleDeployment "d2" "r" "a" 1 1 .active .healthy

/-- The candidate that replaces it, committed under the second owner epoch. -/
def secondEpochCandidate : CatalogRecord :=
  sampleDeployment "d1" "r" "a" 2 1 .candidate .unknown

/-- The content hashes of the records of a node whose owner epoch was raised. -/
def rekeyedHash : ContentHash where
  membership := lookupId
    [(rekeyedMember 1,
        "17be4496d8f80dbf3bedc6ee322fa32bcbcbfed271df31c7ff8d51cc5208bb4d"),
      (rekeyedMember 2,
        "deabce5856fd5c7f6b45fc02e8cac3101be328ce2ebae057c5d59ed4e5e98a94")]
  catalog := lookupId
    [(firstEpochDeployment,
        "b668e3c3a4fd22118a3ba7ad50c558d022e919d99d6d86dd33ea971a398d9141"),
      (secondEpochCandidate,
        "3dea2ce991c6b3cc132ec4971459c8fa932dadf3892c6007498aa1563655b839")]
  desired := lookupId []

/-- The membership after the node reached an owner epoch. -/
def rekeyedView (epochs : List ℕ) : MembershipView :=
  epochs.foldl (fun view epoch =>
    RecordView.offer (MembershipView.apply rekeyedHash.membership ⟨"p", 1⟩) view
      (rekeyedMember epoch)) .empty

/-- The history of the node's own store. -/
def rekeyedCalls : List StoreCall :=
  [.applyMembership 0 (rekeyedMember 1),
    .applyCatalog 0 (rekeyedView [1]) firstEpochDeployment .localNode,
    .applyMembership 0 (rekeyedMember 2),
    .applyCatalog 0 (rekeyedView [1, 2]) secondEpochCandidate .localNode]

/-- The history of a store that knows the members and nothing else. -/
def memberCalls : List StoreCall :=
  [.applyMembership 0 (rekeyedMember 1), .applyMembership 0 (rekeyedMember 2)]

theorem applyExchange_converges_iff_rekeyed :
    (run rekeyedHash ⟨"p", 1⟩ empty rekeyedCalls).latestCatalog =
        [secondEpochCandidate, firstEpochDeployment] ∧
      (Converged rekeyedHash "a" (run rekeyedHash ⟨"p", 1⟩ empty rekeyedCalls)
          (applyExchange rekeyedHash ⟨"p", 1, "b"⟩
            ⟨.v4 (rekeyedMember 2).managementAddress, 51830⟩ (fun _ => 0)
            (run rekeyedHash ⟨"p", 1⟩ empty memberCalls)
            (Exchange.snapshot (run rekeyedHash ⟨"p", 1⟩ empty rekeyedCalls)
              ⟨"p", 1, "a"⟩)) ↔
        Replicable rekeyedHash (rekeyedMember 2)
          (run rekeyedHash ⟨"p", 1⟩ empty memberCalls)
          (Exchange.snapshot (run rekeyedHash ⟨"p", 1⟩ empty rekeyedCalls)
            ⟨"p", 1, "a"⟩)) := by
  have injective : ∀ left ∈ [firstEpochDeployment, secondEpochCandidate],
      ∀ right ∈ [firstEpochDeployment, secondEpochCandidate],
        rekeyedHash.catalog left = rekeyedHash.catalog right → left = right := by decide
  have logged : ∀ record, record ∈ (run rekeyedHash ⟨"p", 1⟩ empty
      rekeyedCalls).catalogOperations ∨
        record ∈ (run rekeyedHash ⟨"p", 1⟩ empty memberCalls).catalogOperations →
          record ∈ [firstEpochDeployment, secondEpochCandidate] := by
    have sender : (run rekeyedHash ⟨"p", 1⟩ empty rekeyedCalls).catalogOperations =
        [firstEpochDeployment, secondEpochCandidate] := by decide
    have receiver : (run rekeyedHash ⟨"p", 1⟩ empty memberCalls).catalogOperations = [] := by
      decide
    simp [sender, receiver]
  have unlogged : ∀ record, ¬(record ∈ (run rekeyedHash ⟨"p", 1⟩ empty
      rekeyedCalls).desiredOperations ∨
        record ∈ (run rekeyedHash ⟨"p", 1⟩ empty memberCalls).desiredOperations) := by
    have sender : (run rekeyedHash ⟨"p", 1⟩ empty rekeyedCalls).desiredOperations = [] := by
      decide
    have receiver : (run rekeyedHash ⟨"p", 1⟩ empty memberCalls).desiredOperations = [] := by
      decide
    simp [sender, receiver]
  exact ⟨by decide, applyExchange_converges_iff rekeyedHash ⟨"p", 1, "a"⟩ ⟨"p", 1, "b"⟩
    rekeyedCalls memberCalls (fun _ => 0) (rekeyedMember 2) 51830 _ rfl (by decide) rfl
    (fun _ => rfl)
    (fun left leftLogged right rightLogged =>
      injective left (logged left leftLogged) right (logged right rightLogged))
    (fun left present => absurd present (unlogged left)) rfl⟩

/-- The snapshot of a node that has deployments of two owner epochs of one replica
is refused by every receiver that does not know the older one. -/
theorem snapshot_of_rekeyed_node_refused :
    (run rekeyedHash ⟨"p", 1⟩ empty rekeyedCalls).latestMembership =
        (run rekeyedHash ⟨"p", 1⟩ empty memberCalls).latestMembership ∧
      (Exchange.fromStore (run rekeyedHash ⟨"p", 1⟩ empty rekeyedCalls)
        ⟨"p", 1, "a"⟩).map (fun exchange =>
          (applyExchange rekeyedHash ⟨"p", 1, "b"⟩
            ⟨.v4 (rekeyedMember 2).managementAddress, 51830⟩ (fun _ => 0)
            (run rekeyedHash ⟨"p", 1⟩ empty memberCalls) exchange).1) =
        .ok (.error (.store (.catalog .staleOwnerEpoch))) := by
  decide

end AgentStore
end Agent
end Jiji
