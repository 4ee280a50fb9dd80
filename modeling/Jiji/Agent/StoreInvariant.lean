import Jiji.Agent.Store

/-!
# The store's invariant

Each ledger of a store is sound: its log, replayed from scratch, reaches its
table of winners.  This holds after any sequence of calls, compactions and
reopenings included, and it reduces every apply function to a step of the rules
of its records at the table of winners.
-/

namespace Jiji
namespace Agent
namespace AgentStore

open Replication

/-- The three ledgers replay to their tables. -/
structure Sound (hash : ContentHash) (scope : MembershipScope) (store : AgentStore) :
    Prop where
  membership :
    store.membership.Sound (MembershipView.rules hash.membership scope) hash.membership
  catalog :
    store.catalog.Sound
      (CatalogView.rules hash.catalog (CatalogRecord.Authentic scope)) hash.catalog
  desired :
    store.desired.Sound
      (DesiredStateView.rules hash.desired (DesiredStateRecord.Authentic scope)) hash.desired

variable {hash : ContentHash} {scope : MembershipScope} {store next : AgentStore}
variable {usedBytes : ℕ} {outcome : Outcome}

theorem sound_empty : (empty : AgentStore).Sound hash scope where
  membership := Ledger.sound_empty
  catalog := Ledger.sound_empty
  desired := Ledger.sound_empty

section Replay

/-- The membership of a sound store is its table of winners. -/
theorem Sound.fromRecords_membership (sound : store.Sound hash scope) :
    ∃ view, MembershipView.fromRecords hash.membership store.membershipOperations scope =
        .ok view ∧
      view.records = store.membership.winners ∧
      ∀ id, id ∈ view.recordIds ↔
        id ∈ store.membership.operations.map hash.membership :=
  sound.membership.replay MembershipView.apply_refines

/-- The catalog of a sound store is its table of winners. -/
theorem Sound.fromRecords_catalog
    (sound : store.Sound hash scope)
    (membership : MembershipView) :
    ∃ view, CatalogView.fromRecords hash.catalog
        (store.catalogOperations.map fun record => (record, .verified)) scope membership =
        .ok view ∧
      view.records = store.catalog.winners ∧
      ∀ id, id ∈ view.recordIds ↔ id ∈ store.catalog.operations.map hash.catalog := by
  rw [CatalogView.fromRecords_verified]
  exact sound.catalog.replay CatalogView.apply_verified_refines

/-- The desired state of a sound store is its table of winners, provided that
every logged record is current in the membership. -/
theorem Sound.fromRecords_desired
    (sound : store.Sound hash scope)
    {membership : MembershipView}
    (current : ∀ record ∈ store.desiredOperations, record.Current membership) :
    ∃ view, DesiredStateView.fromRecords hash.desired
        (store.desiredOperations.map fun record => (record, .verified)) scope membership =
        .ok view ∧
      view.records = store.desired.winners ∧
      ∀ id, id ∈ view.recordIds ↔ id ∈ store.desired.operations.map hash.desired := by
  have authentic := DesiredStateView.admits_of_run sound.desired.run
  have verified : store.desired.Sound
      (DesiredStateView.rules hash.desired fun record =>
        record.verify .verified scope membership = .ok ()) hash.desired := by
    refine ⟨sound.desired.distinct, DesiredStateView.run_of_admits sound.desired.run ?_⟩
    intro record member
    exact DesiredStateRecord.verify_eq_ok_iff.mpr
      ⟨authentic record member, rfl, current record member⟩
  rw [DesiredStateView.fromRecords_verified]
  exact verified.replay DesiredStateView.apply_refines

/-- Rebuilding the desired state succeeds only when every logged record is
current in the membership. -/
theorem Sound.current_of_fromRecords
    (sound : store.Sound hash scope)
    {membership : MembershipView}
    (rebuilt : DesiredStateView.fromRecords hash.desired
      (store.desiredOperations.map fun record => (record, .verified)) scope membership =
        .ok view) :
    ∀ record ∈ store.desiredOperations, record.Current membership := by
  rw [DesiredStateView.fromRecords_verified] at rebuilt
  have run := DesiredStateView.apply_refines.run_of_replay sound.desired.distinct
    (by simp) rebuilt
  intro record member
  exact (DesiredStateRecord.verify_eq_ok_iff.mp
    (DesiredStateView.admits_of_run run record member)).2.2

end Replay

section Applies

/-- A membership record is stored by the membership rules at the winners. -/
theorem Sound.applyMembership_eq_ok_iff
    (sound : store.Sound hash scope)
    {record : MembershipRecord} :
    store.applyMembership hash scope usedBytes record = .ok (outcome, next) ↔
      ∃ after, store.membership.Ingests (MembershipView.rules hash.membership scope)
          hash.membership membershipStorable (store.ensureReplicationCapacity usedBytes)
          record outcome after ∧
        next = { store with membership := after } := by
  obtain ⟨view, rebuilt, records, ids⟩ := sound.fromRecords_membership
  exact Ledger.ingest_judge_eq_ok_iff (fun ledger => { store with membership := ledger })
    (fun log => MembershipView.fromRecords hash.membership log scope)
    MembershipView.apply_refines rebuilt records ids

/-- A catalog record is stored by the catalog rules at the winners. -/
theorem Sound.applyCatalog_eq_ok_iff
    (sound : store.Sound hash scope)
    {membership : MembershipView}
    {provenance : RecordProvenance} :
    store.applyCatalog hash scope usedBytes membership record provenance =
        .ok (outcome, next) ↔
      ∃ after, store.catalog.Ingests
          (CatalogView.rules hash.catalog fun record =>
            record.verify provenance scope membership = .ok ())
          hash.catalog catalogStorable (store.ensureReplicationCapacity usedBytes)
          record outcome after ∧
        next = { store with catalog := after } := by
  obtain ⟨view, rebuilt, records, ids⟩ := sound.fromRecords_catalog membership
  exact Ledger.ingest_judge_eq_ok_iff (fun ledger => { store with catalog := ledger })
    (fun log => CatalogView.fromRecords hash.catalog
      (log.map fun record => (record, .verified)) scope membership)
    CatalogView.apply_refines rebuilt records ids

/-- When every logged record is current, a desired-state record is stored by the
desired-state rules at the winners. -/
theorem Sound.applyDesired_eq_ok_iff
    (sound : store.Sound hash scope)
    {membership : MembershipView}
    (current : ∀ record ∈ store.desiredOperations, record.Current membership)
    {provenance : RecordProvenance} :
    store.applyDesired hash scope usedBytes membership record provenance =
        .ok (outcome, next) ↔
      ∃ after, store.desired.Ingests
          (DesiredStateView.rules hash.desired fun record =>
            record.verify provenance scope membership = .ok ())
          hash.desired desiredStorable (store.ensureReplicationCapacity usedBytes)
          record outcome after ∧
        next = { store with desired := after } := by
  obtain ⟨view, rebuilt, records, ids⟩ := sound.fromRecords_desired current
  exact Ledger.ingest_judge_eq_ok_iff (fun ledger => { store with desired := ledger })
    (fun log => DesiredStateView.fromRecords hash.desired
      (log.map fun record => (record, .verified)) scope membership)
    DesiredStateView.apply_refines rebuilt records ids

/-- A desired-state record is accepted as a duplicate, or only while every logged
record is current. -/
theorem Sound.current_of_applyDesired
    (sound : store.Sound hash scope)
    {membership : MembershipView}
    {provenance : RecordProvenance}
    (accepted : store.applyDesired hash scope usedBytes membership record provenance =
      .ok (outcome, next)) :
    (hash.desired record ∈ store.desired.operations.map hash.desired ∧
        outcome = .duplicate ∧ next = store) ∨
      ∀ record ∈ store.desiredOperations, record.Current membership := by
  obtain ⟨⟨found, ledger⟩, ingested, equal⟩ := Fallible.map_eq_ok_iff.mp accepted
  obtain ⟨rfl, rfl⟩ := Prod.mk.inj equal
  rcases Ledger.ingest_eq_ok_iff.mp ingested with ⟨seen, rfl, rfl⟩ | ⟨_, _, judged, _⟩
  · exact Or.inl ⟨seen, rfl, rfl⟩
  · right
    rw [Fallible.mapError_eq_ok_iff, Ledger.judge] at judged
    split at judged
    · simp at judged
    · rename_i view rebuilt
      exact sound.current_of_fromRecords rebuilt

end Applies

section Preservation

theorem Sound.applyMembership
    (sound : store.Sound hash scope)
    {record : MembershipRecord}
    (accepted : store.applyMembership hash scope usedBytes record = .ok (outcome, next)) :
    next.Sound hash scope := by
  obtain ⟨after, ⟨_, _, rfl⟩ | ⟨new, _, ⟨slots, step⟩, _, rfl⟩, rfl⟩ :=
    sound.applyMembership_eq_ok_iff.mp accepted
  · exact sound
  · exact { sound with membership := (sound.membership.append new step).1 }

theorem Sound.applyCatalog
    (sound : store.Sound hash scope)
    {membership : MembershipView}
    {provenance : RecordProvenance}
    (accepted : store.applyCatalog hash scope usedBytes membership record provenance =
      .ok (outcome, next)) :
    next.Sound hash scope := by
  obtain ⟨after, ⟨_, _, rfl⟩ | ⟨new, _, ⟨slots, step⟩, _, rfl⟩, rfl⟩ :=
    sound.applyCatalog_eq_ok_iff.mp accepted
  · exact sound
  · have authentic := CatalogView.step_mono
      (fun verified => (CatalogRecord.verify_eq_ok_iff.mp verified).1) step
    exact { sound with catalog := (sound.catalog.append new authentic).1 }

theorem Sound.applyDesired
    (sound : store.Sound hash scope)
    {membership : MembershipView}
    {provenance : RecordProvenance}
    (accepted : store.applyDesired hash scope usedBytes membership record provenance =
      .ok (outcome, next)) :
    next.Sound hash scope := by
  rcases sound.current_of_applyDesired accepted with ⟨_, _, rfl⟩ | current
  · exact sound
  · obtain ⟨after, ⟨_, _, rfl⟩ | ⟨new, _, ⟨slots, step⟩, _, rfl⟩, rfl⟩ :=
      (sound.applyDesired_eq_ok_iff current).mp accepted
    · exact sound
    · have verified := DesiredStateView.admits_of_run (.cons step .nil) record (by simp)
      have authentic := DesiredStateView.step_of_admits step
        (DesiredStateRecord.verify_eq_ok_iff.mp verified).1
      exact { sound with desired := (sound.desired.append new authentic).1 }

theorem Sound.compactOperations (sound : store.Sound hash scope) :
    (store.compactOperations hash).2.Sound hash scope where
  membership := sound.membership.compact (MembershipView.rules_hereditary _ _)
  catalog := sound.catalog.compact CatalogView.rules_hereditary
  desired := sound.desired.compact DesiredStateView.rules_hereditary

theorem Sound.reopen (sound : store.Sound hash scope) : store.reopen.Sound hash scope :=
  ⟨sound.membership, sound.catalog, sound.desired⟩

theorem Sound.setSoftQuotaBytes (sound : store.Sound hash scope) (quotaBytes : Option ℕ) :
    (store.setSoftQuotaBytes quotaBytes).Sound hash scope :=
  ⟨sound.membership, sound.catalog, sound.desired⟩

end Preservation

/-- One use of a store by the agent. -/
inductive StoreCall
  | applyMembership (usedBytes : ℕ) (record : MembershipRecord)
  | applyCatalog (usedBytes : ℕ) (membership : MembershipView) (record : CatalogRecord)
      (provenance : RecordProvenance)
  | applyDesired (usedBytes : ℕ) (membership : MembershipView)
      (record : DesiredStateRecord) (provenance : RecordProvenance)
  | compactOperations
  | reopen
  | setSoftQuotaBytes (quotaBytes : Option ℕ)

/-- The store after one call; a call that fails changes nothing. -/
def step (hash : ContentHash) (scope : MembershipScope) (store : AgentStore) :
    StoreCall → AgentStore
  | .applyMembership usedBytes record =>
      Fallible.keep store (store.applyMembership hash scope usedBytes record)
  | .applyCatalog usedBytes membership record provenance =>
      Fallible.keep store (store.applyCatalog hash scope usedBytes membership record provenance)
  | .applyDesired usedBytes membership record provenance =>
      Fallible.keep store (store.applyDesired hash scope usedBytes membership record provenance)
  | .compactOperations => (store.compactOperations hash).2
  | .reopen => store.reopen
  | .setSoftQuotaBytes quotaBytes => store.setSoftQuotaBytes quotaBytes

/-- The store after a sequence of calls. -/
def run (hash : ContentHash) (scope : MembershipScope) (store : AgentStore)
    (calls : List StoreCall) : AgentStore :=
  calls.foldl (step hash scope) store

/-- Every call keeps a store sound. -/
theorem Sound.step (sound : store.Sound hash scope) (call : StoreCall) :
    (store.step hash scope call).Sound hash scope := by
  cases call with
  | applyMembership => exact Fallible.keep_of (Sound hash scope) sound fun _ _ => sound.applyMembership
  | applyCatalog => exact Fallible.keep_of (Sound hash scope) sound fun _ _ => sound.applyCatalog
  | applyDesired => exact Fallible.keep_of (Sound hash scope) sound fun _ _ => sound.applyDesired
  | compactOperations => exact sound.compactOperations
  | reopen => exact sound.reopen
  | setSoftQuotaBytes quotaBytes => exact sound.setSoftQuotaBytes quotaBytes

/-- Every sequence of calls keeps a store sound. -/
theorem Sound.run (sound : store.Sound hash scope) (calls : List StoreCall) :
    (store.run hash scope calls).Sound hash scope :=
  List.foldlRecOn calls (AgentStore.step hash scope) sound
    fun _ sound call _ => sound.step call

/-- Every winning row fits the columns of its table. -/
structure Fitting (store : AgentStore) : Prop where
  catalog : ∀ deployment record, slotsOf store.catalog.winners deployment = some record →
    catalogStorable ∅ record = true
  desired : ∀ service record, slotsOf store.desired.winners service = some record →
    desiredStorable ∅ record = true

theorem fitting_empty : (empty : AgentStore).Fitting := by
  constructor <;> simp [empty, Ledger.empty, Slots.empty]

/-- Every call on a sound store keeps its rows fitting. -/
theorem Fitting.step
    (fitting : store.Fitting)
    (sound : store.Sound hash scope)
    (call : StoreCall) :
    (store.step hash scope call).Fitting := by
  cases call with
  | applyMembership =>
      refine Fallible.keep_of Fitting fitting fun _ _ accepted => ?_
      obtain ⟨after, _, rfl⟩ := sound.applyMembership_eq_ok_iff.mp accepted
      exact ⟨fitting.catalog, fitting.desired⟩
  | applyCatalog =>
      refine Fallible.keep_of Fitting fitting fun _ _ accepted => ?_
      obtain ⟨after, ingests, rfl⟩ := sound.applyCatalog_eq_ok_iff.mp accepted
      exact { fitting with catalog := ingests.winners_of fitting.catalog }
  | applyDesired =>
      refine Fallible.keep_of Fitting fitting fun _ _ accepted => ?_
      rcases sound.current_of_applyDesired accepted with ⟨_, _, rfl⟩ | current
      · exact fitting
      · obtain ⟨after, ingests, rfl⟩ := (sound.applyDesired_eq_ok_iff current).mp accepted
        exact { fitting with desired := ingests.winners_of fitting.desired }
  | compactOperations => exact ⟨fitting.catalog, fitting.desired⟩
  | reopen => exact ⟨fitting.catalog, fitting.desired⟩
  | setSoftQuotaBytes quotaBytes => exact ⟨fitting.catalog, fitting.desired⟩

/-- After any sequence of calls on a fresh store it is sound and its rows fit. -/
theorem sound_fitting_run
    (hash : ContentHash)
    (scope : MembershipScope)
    (calls : List StoreCall) :
    (run hash scope empty calls).Sound hash scope ∧ (run hash scope empty calls).Fitting :=
  List.foldlRecOn calls (AgentStore.step hash scope)
    (motive := fun store => store.Sound hash scope ∧ store.Fitting)
    ⟨sound_empty, fitting_empty⟩
    fun _ holds call _ => ⟨holds.1.step call, holds.2.step holds.1 call⟩

theorem mem_latestCatalog {record : CatalogRecord} :
    record ∈ store.latestCatalog ↔ ∃ deployment,
      slotsOf store.catalog.winners deployment = some record := by
  rw [latestCatalog, List.mem_insertionSort, mem_valuesOf]

theorem Sound.latestCatalog_nodup (sound : store.Sound hash scope) :
    store.latestCatalog.Nodup :=
  (List.perm_insertionSort _ _).nodup_iff.mpr (valuesOf_nodup sound.catalog.keyed)

/-- After any sequence of calls on a fresh store, the membership log and the
catalog log replay without error, the replayed views hold exactly the records of
the materialised tables, and the operation of every winning record is still in
its log. -/
theorem run_replays_to_latest
    (hash : ContentHash)
    (scope : MembershipScope)
    (calls : List StoreCall)
    (membership : MembershipView) :
    (∃ view, MembershipView.fromRecords hash.membership
        (run hash scope empty calls).membershipOperations scope = .ok view ∧
      valuesOf view.records = (run hash scope empty calls).latestMembership) ∧
    (∃ view, CatalogView.fromRecords hash.catalog
        ((run hash scope empty calls).catalogOperations.map
          fun record => (record, .verified)) scope membership = .ok view ∧
      ∀ record, record ∈ valuesOf view.records ↔
        record ∈ (run hash scope empty calls).latestCatalog) ∧
    (∀ record ∈ (run hash scope empty calls).latestMembership,
      record ∈ (run hash scope empty calls).membershipOperations) ∧
    ∀ record ∈ (run hash scope empty calls).latestCatalog,
      record ∈ (run hash scope empty calls).catalogOperations := by
  have sound : (run hash scope empty calls).Sound hash scope := sound_empty.run calls
  obtain ⟨members, membersReplay, membersRecords, _⟩ := sound.fromRecords_membership
  obtain ⟨catalog, catalogReplay, catalogRecords, _⟩ := sound.fromRecords_catalog membership
  refine ⟨⟨members, membersReplay, ?_⟩, ⟨catalog, catalogReplay, ?_⟩, ?_, ?_⟩
  · rw [membersRecords, latestMembership]
  · intro record
    rw [mem_latestCatalog, mem_valuesOf, catalogRecords]
  · intro record wins
    obtain ⟨node, stands⟩ := mem_valuesOf.mp wins
    exact sound.membership.logged stands
  · intro record wins
    obtain ⟨deployment, stands⟩ := mem_latestCatalog.mp wins
    exact sound.catalog.logged stands

end AgentStore
end Agent
end Jiji
