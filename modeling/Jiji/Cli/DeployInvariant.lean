import Jiji.Cli.DeployStaging

/-!
# What the runs of a replica keep true of their host

The runs of one replica commit to the catalog of one host.  Whatever becomes of
their calls, a commit that the agent once confirmed for draining a deployment left
it drained, so a later run that finds a deployment live is not answered from the
cache when it drains it.
-/

namespace Jiji
namespace Cli

open Network Agent Control Replication

/-- A record of a deployment that serves or is about to. -/
abbrev Live (record : CatalogRecord) : Prop :=
  record.state = .candidate ∨ record.state = .active

theorem catalogKey_injective
    (same : catalogKey deploymentId state = catalogKey otherId other) :
    deploymentId = otherId ∧ state = other := by
  replace same := congrArg (fun key => key.toList.reverse) same
  cases state <;> cases other <;>
    simp_all only [catalogKey, stateName, String.toList_append, List.reverse_append,
      String.reduceToList, List.reverse_cons, List.reverse_nil, List.nil_append,
      List.cons_append, List.cons.injEq, List.append_cancel_right_eq, List.reverse_inj,
      String.toList_inj, Char.reduceEq, and_self, true_and, false_and, and_false]

section Invariant

variable (hash : ContentHash) (scope : MembershipScope) (replicaId : String)
variable (members : Ledger String MembershipRecord) (known : Set CatalogRecord)

/-- What the runs of one replica keep true of their host, with the identifiers that the
catalog or the cached responses use. -/
structure Tended (ids : Set String) (host : Host) : Prop where
  grounded : host.api.Grounded hash scope
  members : host.api.store.membership = members
  logged : ∀ record ∈ host.api.store.catalogOperations, record ∈ known
  slots : ∀ deployment current, host.slots deployment = some current → deployment ∈ ids
  cached : ∀ deployment state, deployment ∉ ids →
    host.api.responses[catalogKey deployment state]? = none
  drained : ∀ deployment response,
    host.api.responses[catalogKey deployment .draining]? = some (.ok response) →
      ∀ current, host.slots deployment = some current → ¬Live current
  epochs : ∀ deployment current, host.slots deployment = some current →
    current.replicaId = replicaId →
      ∀ identity, host.api.catalogIdentity = some identity →
        ∀ owner, host.api.store.localOwner hash identity = some owner →
          current.ownerEpoch ≤ owner.ownerEpoch

variable {hash scope replicaId members known} {ids : Set String} {host next : Host}

theorem Tended.mono
    (tended : Tended hash scope replicaId members known ids host)
    (sub : ids ⊆ larger) :
    Tended hash scope replicaId members known larger host :=
  { tended with
    slots := fun deployment current stands => sub (tended.slots deployment current stands)
    cached := fun deployment state other =>
      tended.cached deployment state fun member => other (sub member) }

/-- What touches neither the store nor the cached commits keeps a host tended. -/
theorem Tended.congr
    (tended : Tended hash scope replicaId members known ids host)
    (store : next.api.store = host.api.store)
    (identity : next.api.catalogIdentity = host.api.catalogIdentity)
    (responses : ∀ deployment state, next.api.responses[catalogKey deployment state]? =
      host.api.responses[catalogKey deployment state]?) :
    Tended hash scope replicaId members known ids next where
  grounded := ⟨store ▸ tended.grounded.proper, identity ▸ tended.grounded.inScope⟩
  members := store ▸ tended.members
  logged := store ▸ tended.logged
  slots := by simpa only [Host.slots, store] using tended.slots
  cached := by simpa only [responses] using tended.cached
  drained := by simpa only [Host.slots, store, responses] using tended.drained
  epochs := by simpa only [Host.slots, store, identity] using tended.epochs

/-- What a commit leaves of the catalog: the slots of other deployments, and its own
slot unless it was written there. -/
structure Touches (deploymentId : String) (commit : CatalogCommit) (before after : Host) :
    Prop where
  others : ∀ deployment, deployment ≠ deploymentId →
    after.slots deployment = before.slots deployment
  own : ∀ current, after.slots deploymentId = some current →
    before.slots deploymentId = some current ∨
      (current.state = commit.state ∧ current.replicaId = commit.replicaId)

/-- A commit keeps a host tended if it does not revive what was drained, and if it wins
whenever it drains. -/
theorem Tended.perform_commit
    (tended : Tended hash scope replicaId members known ids host)
    (member : commit.deploymentId ∈ ids)
    (fresh : commit.state = .candidate ∨ commit.state = .active →
      host.api.responses[catalogKey commit.deploymentId .draining]? = none)
    (yields : commit.state = .draining →
      ∀ identity, host.api.catalogIdentity = some identity →
        host.api.store.Yields hash identity commit)
    (distinct : Set.InjOn hash.catalog known)
    (performed : Host.perform hash conditions host
      (.agent (some (catalogKey commit.deploymentId commit.state)) (.catalogCommit commit)) =
        (reply, next))
    (commits : ∀ record, reply = .ok (.agent (.catalogCommitted record)) → record ∈ known) :
    Tended hash scope replicaId members known ids next ∧
      Touches commit.deploymentId commit host next ∧
      ∀ deployment state, (deployment ≠ commit.deploymentId ∨ state ≠ commit.state) →
        next.api.responses[catalogKey deployment state]? =
          host.api.responses[catalogKey deployment state]? := by
  have elsewhere : ∀ result deployment state,
      (deployment ≠ commit.deploymentId ∨ state ≠ commit.state) →
      (host.api.responses.insert (catalogKey commit.deploymentId commit.state)
        result)[catalogKey deployment state]? =
          host.api.responses[catalogKey deployment state]? := by
    intro result deployment state different
    have keys : catalogKey commit.deploymentId commit.state ≠ catalogKey deployment state := by
      intro same
      obtain ⟨rfl, rfl⟩ := catalogKey_injective same
      simp at different
    simp [Std.ExtTreeMap.getElem?_insert, keys]
  have uncached : ∀ result deployment state, deployment ∉ ids →
      (host.api.responses.insert (catalogKey commit.deploymentId commit.state)
        result)[catalogKey deployment state]? = none := by
    intro result deployment state other
    rw [elsewhere result deployment state (Or.inl fun same => other (same ▸ member))]
    exact tended.cached deployment state other
  rcases perform_catalogCommit_cases performed with
    ⟨_, _, _, rfl⟩ | ⟨_, error, _, rfl⟩ |
      ⟨_, identity, record, store, configured, committed, confirmed, rfl⟩
  · exact ⟨tended, ⟨fun _ _ => rfl, fun _ => Or.inl⟩, fun _ _ _ => rfl⟩
  · refine ⟨{ tended with
      grounded := ⟨tended.grounded.proper, tended.grounded.inScope⟩
      cached := uncached _
      drained := ?_ }, ⟨fun _ _ => rfl, fun _ => Or.inl⟩, elsewhere _⟩
    intro deployment response found
    by_cases same : deployment ≠ commit.deploymentId ∨ .draining ≠ commit.state
    · rw [elsewhere _ deployment _ same] at found
      exact tended.drained deployment response found
    · push Not at same
      simp [same.1, same.2] at found
  · obtain ⟨address, owner, _, _, owned, _, written, _⟩ :=
      AgentStore.applyCatalog_of_catalogCommit committed
    have recorded := commits record confirmed
    have proper := tended.grounded.proper_of_identity configured
    obtain ⟨kept, sameMembers, frame, logged, winners⟩ := proper.catalogCommit_frame committed
    have sameOwner : ∀ other, store.localOwner hash other =
        host.api.store.localOwner hash other := by
      intro other
      simp only [AgentStore.localOwner, AgentStore.membershipOperations, sameMembers]
    have touches : Touches commit.deploymentId commit host
        { host with api := { host.api with
          store := store
          responses := host.api.responses.insert
            (catalogKey commit.deploymentId commit.state)
            (.ok (.catalogCommitted record)) } } := by
      refine ⟨frame, fun current stands => ?_⟩
      rcases winners _ current stands with before | rfl
      · exact Or.inl before
      · exact Or.inr (by rw [written]; exact ⟨rfl, rfl⟩)
    refine ⟨⟨⟨tended.grounded.inScope identity configured ▸ kept, tended.grounded.inScope⟩,
      sameMembers.trans tended.members, ?_, ?_, uncached _, ?_, ?_⟩, touches, elsewhere _⟩
    · intro taken present
      rcases logged taken present with before | rfl
      · exact tended.logged taken before
      · exact recorded
    · intro deployment current stands
      by_cases same : deployment = commit.deploymentId
      · exact same ▸ member
      · exact tended.slots deployment current ((frame deployment same).symm.trans stands)
    · intro deployment response found current stands
      by_cases same : deployment = commit.deploymentId
      · subst same
        by_cases draining : commit.state = .draining
        · have wins := proper.catalogCommit_wins (yields draining identity configured)
            (fun logged present same => distinct (tended.logged logged present) recorded same)
            committed
          simp only [Host.slots] at stands
          rw [wins, Function.update_self] at stands
          rw [← Option.some.inj stands, written]
          simp [Live, AgentStore.nextCatalog, draining]
        · rw [elsewhere _ _ _ (Or.inr (Ne.symm draining))] at found
          rcases touches.own current stands with before | ⟨state, _⟩
          · exact tended.drained _ response found current before
          · intro live
            rw [Live, state] at live
            simp [fresh live] at found
      · rw [elsewhere _ _ _ (Or.inl same)] at found
        exact tended.drained deployment response found current
          ((frame deployment same).symm.trans stands)
    · intro deployment current stands replica other same localMember owns
      obtain rfl : identity = other := Option.some.inj (configured.symm.trans same)
      rw [sameOwner] at owns
      rcases winners deployment current stands with before | rfl
      · exact tended.epochs deployment current before replica identity configured localMember owns
      · rw [owned] at owns
        rw [written, ← Option.some.inj owns]
        exact le_rfl

/-- The same for a commit of any fate. -/
theorem Tended.settle_commit
    (tended : Tended hash scope replicaId members known ids host)
    (commit : CatalogCommit)
    (member : commit.deploymentId ∈ ids)
    (fresh : commit.state = .candidate ∨ commit.state = .active →
      host.api.responses[catalogKey commit.deploymentId .draining]? = none)
    (yields : commit.state = .draining →
      ∀ identity, host.api.catalogIdentity = some identity →
        host.api.store.Yields hash identity commit)
    (distinct : Set.InjOn hash.catalog known)
    {fate : Fate Conditions DeployError}
    (settled : ((hostWorld hash).settle host
      (.agent (some (catalogKey commit.deploymentId commit.state)) (.catalogCommit commit))
        fate).2 = next)
    (commits : Commits known ((hostWorld hash).settle host
      (.agent (some (catalogKey commit.deploymentId commit.state)) (.catalogCommit commit))
        fate).1) :
    Tended hash scope replicaId members known ids next ∧
      Touches commit.deploymentId commit host next ∧
      ∀ deployment state, (deployment ≠ commit.deploymentId ∨ state ≠ commit.state) →
        next.api.responses[catalogKey deployment state]? =
          host.api.responses[catalogKey deployment state]? := by
  subst settled
  rcases (hostWorld hash).settle_state host _ fate with same | ⟨conditions, same, answer⟩
  · rw [same]
    exact ⟨tended, ⟨fun _ _ => rfl, fun _ => Or.inl⟩, fun _ _ _ => rfl⟩
  · rw [same]
    rw [Commits, answer] at commits
    exact tended.perform_commit member fresh yields distinct rfl
      fun record confirmed => commits record (congrArg some confirmed)

/-- The calls that touch neither the store nor the cached commits. -/
def Plain : Request → Prop
  | .agent none .catalogList | .agent none .imageRetentionList => True
  | .agent (some key) (.allocateAddress _ _ _ _ _) | .agent (some key) (.releaseAddress _ _) =>
      ∀ deployment state, key ≠ catalogKey deployment state
  | .agent _ _ => False
  | _ => True

/-- The calls that start no container. -/
def Quiet : Request → Prop
  | .start _ | .createAndStart _ => False
  | _ => True

/-- The calls that leave every container alone. -/
def Idle : Request → Prop
  | .stop _ | .removeIfPresent _ => False
  | request => Quiet request

/-- A plain call keeps the store, the identity and the cached commits. -/
theorem perform_plain
    (plain : Plain request) :
    (Host.perform hash conditions host request).2.api.store = host.api.store ∧
      (Host.perform hash conditions host request).2.api.catalogIdentity =
        host.api.catalogIdentity ∧
      ∀ deployment state,
        (Host.perform hash conditions host request).2.api.responses[
            catalogKey deployment state]? =
          host.api.responses[catalogKey deployment state]? := by
  cases request with
  | agent key body =>
      rcases served : host.api.handleIdempotent hash conditions.usedBytes key body with
        ⟨result, api⟩
      simp only [Host.perform, Host.askAgent, served]
      cases key with
      | none =>
          cases body with
          | catalogList | imageRetentionList =>
              obtain ⟨_, rfl⟩ := Prod.mk.inj served
              exact ⟨rfl, rfl, fun _ _ => rfl⟩
          | _ => exact plain.elim
      | some key =>
          rcases AgentApi.handleIdempotent_cases served with
            ⟨_, rfl⟩ | ⟨_, after, handled, rfl⟩
          · exact ⟨rfl, rfl, fun _ _ => rfl⟩
          · cases body with
            | allocateAddress =>
                obtain ⟨leases, _, rfl⟩ := AgentApi.handle_allocateAddress handled
                refine ⟨rfl, rfl, fun deployment state => ?_⟩
                simp [Std.ExtTreeMap.getElem?_insert, plain deployment state]
            | releaseAddress =>
                obtain ⟨leases, _, rfl⟩ := AgentApi.handle_releaseAddress handled
                refine ⟨rfl, rfl, fun deployment state => ?_⟩
                simp [Std.ExtTreeMap.getElem?_insert, plain deployment state]
            | _ => exact plain.elim
  | stop name => simp [Host.perform, (setRunning_frame host name false).1]
  | start name => simp [Host.perform, (setRunning_frame host name true).1]
  | createAndStart run => simp [Host.perform, (create_frame host conditions run).1]
  | waitUntilHealthy name =>
      simp only [Host.perform]
      split <;> exact ⟨rfl, rfl, fun _ _ => rfl⟩
  | _ => exact ⟨rfl, rfl, fun _ _ => rfl⟩

/-- The same for a plain call of any fate. -/
theorem settle_plain
    (plain : Plain request)
    (fate : Fate Conditions DeployError) :
    ((hostWorld hash).settle host request fate).2.api.store = host.api.store ∧
      ((hostWorld hash).settle host request fate).2.api.catalogIdentity =
        host.api.catalogIdentity ∧
      ∀ deployment state,
        ((hostWorld hash).settle host request fate).2.api.responses[
            catalogKey deployment state]? =
          host.api.responses[catalogKey deployment state]? := by
  rcases (hostWorld hash).settle_state host request fate with same | ⟨conditions, same, _⟩
  · rw [same]
    exact ⟨rfl, rfl, fun _ _ => rfl⟩
  · rw [same]
    exact perform_plain plain

/-- A run of plain calls keeps the store. -/
theorem store_of_plain_runs
    (runs : Script.Runs (hostWorld hash) script host result calls final)
    (uses : script.Uses Plain) :
    final.api.store = host.api.store := by
  have kept : Script.Triple (hostWorld hash) (fun _ => True)
      (fun other => other.api.store = host.api.store) script
      fun _ other => other.api.store = host.api.store :=
    .of_uses uses fun _ _ fate plain _ same => (settle_plain plain fate).1.trans same
  exact kept host result calls final runs (fun _ _ => trivial) rfl

end Invariant

end Cli
end Jiji
