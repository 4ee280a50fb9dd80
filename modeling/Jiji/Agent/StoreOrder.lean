import Jiji.Agent.StoreInvariant

/-!
# The order of a store

Over any sequence of calls, compactions and reopenings included, neither the catalog
nor the desired state of a store goes back: what stands for a deployment or a service
is only ever replaced by a record of larger order, and a tombstone gives way only to a
record of a larger owner epoch.  A compaction leaves in each log the winners and
nothing else, so that a second one finds nothing to remove.
-/

namespace Jiji
namespace Agent

open Replication

/-- What may stand for a deployment after a record: nothing of smaller order, and
after a tombstone only a tombstone or a record of a larger owner epoch. -/
structure CatalogRecord.Follows
    (recordId : CatalogRecord → String)
    (current later : CatalogRecord) : Prop where
  order_le : current.order recordId ≤ later.order recordId
  epoch_lt : current.state = .tombstoned → later.state ≠ .tombstoned →
    current.ownerEpoch < later.ownerEpoch

namespace CatalogRecord

variable {recordId : CatalogRecord → String}

theorem Follows.refl (record : CatalogRecord) : Follows recordId record record :=
  ⟨le_rfl, fun buried revived => absurd buried revived⟩

theorem Follows.trans
    (first second third : CatalogRecord)
    (left : Follows recordId first second)
    (right : Follows recordId second third) :
    Follows recordId first third where
  order_le := left.order_le.trans right.order_le
  epoch_lt := by
    intro buried revived
    have firstLe : first.ownerEpoch ≤ second.ownerEpoch := Rank.epoch_le_of_le left.order_le
    have secondLe : second.ownerEpoch ≤ third.ownerEpoch := Rank.epoch_le_of_le right.order_le
    by_cases again : second.state = .tombstoned
    · exact firstLe.trans_lt (right.epoch_lt again revived)
    · exact (left.epoch_lt buried again).trans_le secondLe

/-- A record that no guard stops follows the one it replaces. -/
theorem follows_of_unblocked
    {admits : CatalogRecord → Prop}
    {slots : Slots String CatalogRecord}
    {current record : CatalogRecord}
    (stands : slots record.deploymentId = some current)
    (outranks : current.order recordId < record.order recordId)
    (unblocked : ¬(CatalogView.rules recordId admits).Blocked slots record) :
    Follows recordId current record where
  order_le := outranks.le
  epoch_lt := by
    intro buried revived
    have le : current.ownerEpoch ≤ record.ownerEpoch := Rank.epoch_le_of_le outranks.le
    exact le.lt_of_ne fun same => unblocked ⟨current, stands, buried, revived, same.symm⟩

end CatalogRecord

namespace AgentStore

/-- The later store is not behind the earlier one. -/
structure Advances (hash : ContentHash) (earlier later : AgentStore) : Prop where
  catalog : (slotsOf earlier.catalog.winners).Succeeded (CatalogRecord.Follows hash.catalog)
    (slotsOf later.catalog.winners)
  desired : (slotsOf earlier.desired.winners).Succeeded
    (fun current later => current.order hash.desired ≤ later.order hash.desired)
    (slotsOf later.desired.winners)

variable {hash : ContentHash} {scope : MembershipScope} {store earlier middle later : AgentStore}

theorem Advances.refl (store : AgentStore) : store.Advances hash store where
  catalog := .refl CatalogRecord.Follows.refl _
  desired := .refl (fun record => le_refl (record.order hash.desired)) _

theorem Advances.trans
    (before : earlier.Advances hash middle)
    (after : middle.Advances hash later) :
    earlier.Advances hash later where
  catalog := before.catalog.trans CatalogRecord.Follows.trans after.catalog
  desired := before.desired.trans (fun _ _ _ => le_trans) after.desired

/-- Every call on a sound store advances it. -/
theorem Sound.advances_step (sound : store.Sound hash scope) (call : StoreCall) :
    store.Advances hash (store.step hash scope call) := by
  have same : store.Advances hash store := .refl store
  cases call with
  | applyMembership =>
      refine Fallible.keep_of (store.Advances hash) same fun _ _ accepted => ?_
      obtain ⟨after, ingests, rfl⟩ := sound.applyMembership_eq_ok_iff.mp accepted
      exact ⟨same.catalog, same.desired⟩
  | applyCatalog =>
      refine Fallible.keep_of (store.Advances hash) same fun _ _ accepted => ?_
      obtain ⟨after, ingests, rfl⟩ := sound.applyCatalog_eq_ok_iff.mp accepted
      exact { same with
        catalog := ingests.succeeded CatalogRecord.Follows.refl
          fun _ => CatalogRecord.follows_of_unblocked }
  | applyDesired =>
      refine Fallible.keep_of (store.Advances hash) same fun _ _ accepted => ?_
      rcases sound.current_of_applyDesired accepted with ⟨_, _, rfl⟩ | current
      · exact same
      · obtain ⟨after, ingests, rfl⟩ := (sound.applyDesired_eq_ok_iff current).mp accepted
        exact { same with
          desired := ingests.succeeded (fun _ => le_rfl) fun _ _ outranks _ => outranks.le }
  | compactOperations => exact ⟨same.catalog, same.desired⟩
  | reopen => exact ⟨same.catalog, same.desired⟩
  | setSoftQuotaBytes quotaBytes => exact ⟨same.catalog, same.desired⟩

/-- Every sequence of calls on a sound store advances it. -/
theorem Sound.advances_run (sound : store.Sound hash scope) (calls : List StoreCall) :
    store.Advances hash (store.run hash scope calls) := by
  induction calls generalizing store with
  | nil => exact .refl store
  | cons call calls inductionHypothesis =>
      exact (sound.advances_step call).trans (inductionHypothesis (sound.step call))

/-- After any calls on a fresh store and any further ones, every deployment and every
service of the earlier store has a record in the later one that is no older.  The
tombstone of a deployment is replaced by a live record only under a larger owner epoch. -/
theorem run_never_goes_back
    (hash : ContentHash)
    (scope : MembershipScope)
    (calls more : List StoreCall) :
    let earlier := run hash scope empty calls
    let later := run hash scope empty (calls ++ more)
    (∀ current ∈ earlier.latestCatalog, ∃ record ∈ later.latestCatalog,
      record.deploymentId = current.deploymentId ∧
        current.order hash.catalog ≤ record.order hash.catalog ∧
        (current.state = .tombstoned → record.state ≠ .tombstoned →
          current.ownerEpoch < record.ownerEpoch)) ∧
    ∀ service current, earlier.desiredState service = some current →
      ∃ record, later.desiredState service = some record ∧
        current.order hash.desired ≤ record.order hash.desired := by
  intro earlier later
  have sound : earlier.Sound hash scope := sound_empty.run calls
  have soundLater : later.Sound hash scope := sound_empty.run (calls ++ more)
  have advances : earlier.Advances hash later := by
    have onward := sound.advances_run more
    rwa [show earlier.run hash scope more = later from List.foldl_append.symm] at onward
  constructor
  · intro current wins
    obtain ⟨deployment, stands⟩ := mem_latestCatalog.mp wins
    obtain ⟨record, standsLater, follows⟩ := advances.catalog deployment current stands
    exact ⟨record, mem_latestCatalog.mpr ⟨deployment, standsLater⟩,
      (soundLater.catalog.keyed _ _ standsLater).trans (sound.catalog.keyed _ _ stands).symm,
      follows.order_le, follows.epoch_lt⟩
  · exact fun service current stands => advances.desired service current stands

/-- After any calls on a fresh store, a compaction leaves each winner once in its log and
nothing for a second compaction to remove. -/
theorem run_compacts_to_latest
    (hash : ContentHash)
    (scope : MembershipScope)
    (calls : List StoreCall) :
    let store := run hash scope empty calls
    let compacted := (store.compactOperations hash).2
    compacted.membershipOperations.Perm store.latestMembership ∧
      compacted.catalogOperations.Perm store.latestCatalog ∧
      compacted.desiredOperations.Perm store.desiredSnapshotOperations ∧
      compacted.compactOperations hash = (⟨0, 0, 0⟩, compacted) := by
  intro store compacted
  have sound : store.Sound hash scope := sound_empty.run calls
  refine ⟨sound.membership.compact_perm, ?_, sound.desired.compact_perm, ?_⟩
  · exact sound.catalog.compact_perm.trans (List.perm_insertionSort _ _).symm
  · simp [compacted, compactOperations]

end AgentStore
end Agent
end Jiji
