import Jiji.Agent.Api

/-!
# What commits to the catalog do

A commit that the agent confirms takes effect: the committed record wins its
deployment.  The next revision of a replica lies above the revisions of all its
standing records, so the record outranks the one that it follows unless that one
carries a larger owner epoch.  A commit touches the slot of its own deployment only.
-/

namespace Jiji
namespace Agent

open Network Replication

namespace AgentStore

/-- A store that a sequence of calls on a fresh database can leave. -/
structure Proper (hash : ContentHash) (scope : MembershipScope) (store : AgentStore) :
    Prop where
  sound : store.Sound hash scope
  fitting : store.Fitting

theorem proper_run (hash : ContentHash) (scope : MembershipScope) (calls : List StoreCall) :
    (run hash scope empty calls).Proper hash scope :=
  ⟨(sound_fitting_run hash scope calls).1, (sound_fitting_run hash scope calls).2⟩

/-- The member that the node itself is, by its own log. -/
def localOwner (hash : ContentHash) (identity : NodeIdentity) (store : AgentStore) :
    Option MembershipRecord :=
  match MembershipView.fromRecords hash.membership store.membershipOperations
      identity.scope with
  | .error _ => none
  | .ok membership => MembershipView.get membership identity.nodeId

variable {hash : ContentHash} {identity : NodeIdentity} {scope : MembershipScope}
variable {store next : AgentStore} {usedBytes : ℕ} {commit : CatalogCommit}
variable {record : CatalogRecord}

/-- Every call keeps a store proper. -/
theorem Proper.step (proper : store.Proper hash scope) (call : StoreCall) :
    (store.step hash scope call).Proper hash scope :=
  ⟨proper.sound.step call, proper.fitting.step proper.sound call⟩

theorem Proper.applyCatalog
    (proper : store.Proper hash scope)
    {membership : MembershipView}
    {outcome : Outcome}
    (accepted : store.applyCatalog hash scope usedBytes membership record provenance =
      .ok (outcome, next)) :
    next.Proper hash scope := by
  have kept := proper.step (.applyCatalog usedBytes membership record provenance)
  simpa only [AgentStore.step, accepted, Fallible.keep] using kept

/-- A commit writes the next record of the local member by the catalog rules. -/
theorem applyCatalog_of_catalogCommit
    (committed : store.catalogCommit hash identity usedBytes commit = .ok (record, next)) :
    ∃ address owner membership outcome,
      store.localOwner hash identity = some owner ∧
      store.fencedToOther identity owner commit.replicaId = false ∧
      record = store.nextCatalog identity owner address commit ∧
      store.applyCatalog hash identity.scope usedBytes membership record .localNode =
        .ok (outcome, next) := by
  unfold catalogCommit at committed
  split at committed
  · simp at committed
  · rename_i address _
    split at committed
    · simp at committed
    · rename_i membership rebuilt
      split at committed
      · simp at committed
      · rename_i owner member
        split at committed
        · simp at committed
        · rename_i unfenced
          dsimp only at committed
          split at committed
          · simp at committed
          · rename_i outcome after applied
            obtain ⟨rfl, rfl⟩ := Prod.mk.inj (Except.ok.inj committed)
            refine ⟨address, owner, membership, outcome, ?_, ?_, rfl, applied⟩
            · simp only [localOwner, rebuilt, member]
            · simpa using unfenced

/-- What a commit leaves alone: the membership, and the slots of other deployments.
Nothing else than the record is logged or wins. -/
theorem Proper.catalogCommit_frame
    (proper : store.Proper hash identity.scope)
    (committed : store.catalogCommit hash identity usedBytes commit = .ok (record, next)) :
    next.Proper hash identity.scope ∧ next.membership = store.membership ∧
      (∀ deployment, deployment ≠ commit.deploymentId →
        slotsOf next.catalog.winners deployment =
          slotsOf store.catalog.winners deployment) ∧
      (∀ logged ∈ next.catalogOperations, logged ∈ store.catalogOperations ∨
        logged = record) ∧
      ∀ deployment current, slotsOf next.catalog.winners deployment = some current →
        slotsOf store.catalog.winners deployment = some current ∨ current = record := by
  obtain ⟨address, owner, membership, outcome, _, _, rfl, applied⟩ :=
    applyCatalog_of_catalogCommit committed
  have kept := proper.applyCatalog applied
  obtain ⟨after, ingests, rfl⟩ := proper.sound.applyCatalog_eq_ok_iff.mp applied
  refine ⟨kept, rfl, ?_, fun logged member => (ingests.logged_cases member).imp_right And.left,
    fun deployment current stands => (ingests.winner_cases stands).imp_right And.left⟩
  intro deployment other
  rcases ingests.same_or_step with rfl | step
  · rfl
  · exact step.frame other

/-- The next revision lies above every standing revision of the replica. -/
theorem Fitting.revision_lt_nextCatalogRevision
    (fitting : store.Fitting)
    (stands : slotsOf store.catalog.winners deployment = some current) :
    current.revision < store.nextCatalogRevision current.replicaId := by
  have small : current.revision < 2 ^ 63 := by
    have fits := fitting.catalog deployment current stands
    simp only [catalogStorable, fitsColumn, Bool.and_eq_true, decide_eq_true_eq] at fits
    exact fits.2
  have listed : current.revision ∈ (store.latestCatalog.filter fun record =>
      record.replicaId = current.replicaId).map CatalogRecord.revision := by
    refine List.mem_map_of_mem (List.mem_filter.mpr ⟨mem_latestCatalog.mpr ⟨_, stands⟩, ?_⟩)
    simp
  unfold nextCatalogRevision
  cases largest : ((store.latestCatalog.filter fun record =>
      record.replicaId = current.replicaId).map CatalogRecord.revision).max? with
  | none => simp [List.max?_eq_none_iff.mp largest] at listed
  | some revision =>
      have upper := (List.max?_eq_some_iff.mp largest).2 _ listed
      rw [Option.getD_some]
      omega

/-- The standing record of the deployment does not keep a commit from winning. -/
def Yields
    (hash : ContentHash)
    (identity : NodeIdentity)
    (store : AgentStore)
    (commit : CatalogCommit) : Prop :=
  ∀ current, slotsOf store.catalog.winners commit.deploymentId = some current →
    current.replicaId = commit.replicaId ∧
      ∀ owner, store.localOwner hash identity = some owner →
        current.ownerEpoch ≤ owner.ownerEpoch

/-- The record of a commit outranks the standing one. -/
theorem Fitting.order_lt
    (fitting : store.Fitting)
    (localMember : store.localOwner hash identity = some owner)
    (yields : store.Yields hash identity commit)
    (stands : slotsOf store.catalog.winners commit.deploymentId = some current) :
    current.order hash.catalog <
      (store.nextCatalog identity owner address commit).order hash.catalog := by
  obtain ⟨replica, epochs⟩ := yields current stands
  have revision := fitting.revision_lt_nextCatalogRevision stands
  have epoch := epochs owner localMember
  rw [replica] at revision
  simp only [CatalogRecord.order, Rank.of_lt_of, nextCatalog]
  omega

/-- A commit that is confirmed wins its deployment, and it is logged. -/
theorem Proper.catalogCommit_wins
    (proper : store.Proper hash identity.scope)
    (yields : store.Yields hash identity commit)
    (distinct : ∀ logged ∈ store.catalogOperations,
      hash.catalog logged = hash.catalog record → logged = record)
    (committed : store.catalogCommit hash identity usedBytes commit = .ok (record, next)) :
    slotsOf next.catalog.winners =
      Function.update (slotsOf store.catalog.winners) commit.deploymentId (some record) := by
  obtain ⟨address, owner, membership, outcome, localMember, _, rfl, applied⟩ :=
    applyCatalog_of_catalogCommit committed
  have outranks : ∀ current,
      slotsOf store.catalog.winners commit.deploymentId = some current →
      ¬(store.nextCatalog identity owner address commit).order hash.catalog ≤
        current.order hash.catalog :=
    fun current stands => not_le.mpr (proper.fitting.order_lt localMember yields stands)
  obtain ⟨after, ingests, rfl⟩ := proper.sound.applyCatalog_eq_ok_iff.mp applied
  rcases ingests with ⟨seen, _, _⟩ | ⟨_, _, ⟨slots, step⟩, _, rfl⟩
  · obtain ⟨logged, member, collides⟩ := List.mem_map.mp seen
    obtain rfl := distinct logged member collides
    obtain ⟨current, stands, outranked⟩ := proper.sound.catalog.run.dominates member
    exact absurd outranked (outranks current stands)
  · rw [Ledger.winners_append_of_step step]
    cases step with
    | superseded _ stands outranked => exact absurd outranked (outranks _ stands)
    | applied => rfl

end AgentStore

namespace AgentApi

variable {hash : ContentHash} {usedBytes : ℕ} {api next : AgentApi} {key : String}
variable {body : RequestBody} {result : ApiResult}

/-- The store of an agent is proper for a scope, which is the scope of the agent's
identity if it has one. -/
structure Grounded (hash : ContentHash) (scope : MembershipScope) (api : AgentApi) : Prop where
  proper : api.store.Proper hash scope
  inScope : ∀ identity, api.catalogIdentity = some identity → identity.scope = scope

theorem Grounded.proper_of_identity
    (grounded : api.Grounded hash scope)
    (configured : api.catalogIdentity = some identity) :
    api.store.Proper hash identity.scope :=
  grounded.inScope identity configured ▸ grounded.proper

/-- A request with a key is answered from its cached result, or it is handled and
its result is cached. -/
theorem handleIdempotent_cases
    (handled : api.handleIdempotent hash usedBytes (some key) body = (result, next)) :
    (api.responses[key]? = some result ∧ next = api) ∨
      (api.responses[key]? = none ∧ ∃ after,
        api.handle hash usedBytes body = (result, after) ∧
        next = { after with responses := after.responses.insert key result }) := by
  simp only [handleIdempotent] at handled
  split at handled
  · rename_i cached found
    obtain ⟨rfl, rfl⟩ := Prod.mk.inj handled
    exact Or.inl ⟨found, rfl⟩
  · rename_i absent
    obtain ⟨rfl, rfl⟩ := Prod.mk.inj handled
    exact Or.inr ⟨absent, _, rfl, rfl⟩

/-- A commit that is not confirmed changes nothing, and a confirmed one is a commit to
the store. -/
theorem handle_catalogCommit_cases
    (handled : api.handle hash usedBytes (.catalogCommit commit) = (result, next)) :
    (∃ error, result = .error error ∧ next = api) ∨
      ∃ identity record store, api.catalogIdentity = some identity ∧
        api.store.catalogCommit hash identity usedBytes commit = .ok (record, store) ∧
        result = .ok (.catalogCommitted record) ∧ next = { api with store := store } := by
  simp only [handle] at handled
  split at handled
  · obtain ⟨rfl, rfl⟩ := Prod.mk.inj handled
    exact Or.inl ⟨_, rfl, rfl⟩
  · rename_i identity known
    split at handled
    · obtain ⟨rfl, rfl⟩ := Prod.mk.inj handled
      exact Or.inl ⟨_, rfl, rfl⟩
    · rename_i record store committed
      obtain ⟨rfl, rfl⟩ := Prod.mk.inj handled
      exact Or.inr ⟨identity, record, store, known, committed, rfl, rfl⟩

/-- Serving a request for an address changes the leases only. -/
theorem handle_allocateAddress
    (handled : api.handle hash usedBytes
      (.allocateAddress deploymentId replicaId subnet reserved timestamp) = (result, next)) :
    ∃ leases, api.leases.handleAllocate deploymentId replicaId subnet reserved timestamp =
      (result, leases) ∧ next = { api with leases := leases } := by
  simp only [handle] at handled
  obtain ⟨rfl, rfl⟩ := Prod.mk.inj handled
  exact ⟨_, rfl, rfl⟩

/-- Releasing an address changes the leases only. -/
theorem handle_releaseAddress
    (handled : api.handle hash usedBytes (.releaseAddress deploymentId timestamp) =
      (result, next)) :
    ∃ leases, api.leases.handleRelease deploymentId timestamp = (result, leases) ∧
      next = { api with leases := leases } := by
  simp only [handle] at handled
  obtain ⟨rfl, rfl⟩ := Prod.mk.inj handled
  exact ⟨_, rfl, rfl⟩

end AgentApi

namespace LeaseTable

variable {table next : LeaseTable} {deploymentId replicaId subnet : String}
variable {reserved : List String} {timestamp : ℕ} {result : ApiResult}

/-- A request for an address gives a deployment without a lease an active one, or fails
and leaves it without one. -/
theorem handleAllocate_of_free
    (free : table.addressLease deploymentId = none)
    (handled : table.handleAllocate deploymentId replicaId subnet reserved timestamp =
      (result, next)) :
    (∃ deployment replica address state,
      result = .ok (.addressLease deployment replica address state) ∧
        next.Leased deploymentId) ∨
      ∃ error, result = .error error ∧ next.addressLease deploymentId = none := by
  unfold handleAllocate at handled
  split at handled
  · obtain ⟨rfl, rfl⟩ := Prod.mk.inj handled
    exact Or.inr ⟨_, rfl, free⟩
  · split at handled
    · obtain ⟨rfl, rfl⟩ := Prod.mk.inj handled
      exact Or.inr ⟨_, rfl, free⟩
    · split at handled
      · rename_i failed
        obtain ⟨rfl, rfl⟩ := Prod.mk.inj handled
        rcases AddressAllocator.allocate_of_free free failed with ⟨_, contra, _⟩ | ⟨_, _, still⟩
        · simp at contra
        · exact Or.inr ⟨_, rfl, still⟩
      · rename_i allocated
        obtain ⟨rfl, rfl⟩ := Prod.mk.inj handled
        rcases AddressAllocator.allocate_of_free free allocated with
          ⟨_, _, leased⟩ | ⟨_, contra, _⟩
        · exact Or.inl ⟨_, _, _, _, rfl, leased⟩
        · simp at contra

/-- A confirmed release leaves the deployment without an active lease. -/
theorem not_leased_of_handleRelease
    (handled : table.handleRelease deploymentId timestamp = (.ok response, next)) :
    ¬next.Leased deploymentId := by
  unfold handleRelease at handled
  split at handled
  · simp at handled
  · rename_i released
    obtain ⟨_, rfl⟩ := Prod.mk.inj handled
    exact not_leased_of_quarantineAddressLease released

end LeaseTable

end Agent
end Jiji
