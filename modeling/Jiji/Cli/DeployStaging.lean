import Jiji.Cli.HostCalls

/-!
# Staged candidates

Between the lease of an address and the cutover a run changes nothing on its host
but the container, the record and the lease of its own candidate, and the container
that it stopped first.  The clean-up of a run, if none of its calls fails, takes all
of this back.
-/

namespace Jiji
namespace Cli

open Network Agent Control Replication

namespace Host

/-- The standing record of each deployment. -/
abbrev slots (host : Host) : Slots String CatalogRecord :=
  slotsOf host.api.store.catalog.winners

end Host

/-- The identifier of a run and all that is named after it are new on the host. -/
structure Fresh (ctx : EndpointDeploymentContext) (deploymentId : String) (host : Host) :
    Prop where
  container : host.containers[containerName ctx deploymentId]? = none
  lease : host.api.leases.addressLease deploymentId = none
  record : ∀ record ∈ host.api.store.latestCatalog, record.deploymentId ≠ deploymentId
  leaseResponse : host.api.responses[leaseKey deploymentId]? = none
  releaseResponse : host.api.responses[releaseKey deploymentId]? = none
  catalogResponse : ∀ state, host.api.responses[catalogKey deploymentId state]? = none

/-- Nothing is left of a candidate, and what served the replica before still does. -/
structure RolledBack
    (ctx : EndpointDeploymentContext)
    (deploymentId : String)
    (start final : Host) : Prop where
  container : final.containers[containerName ctx deploymentId]? = none
  lease : ¬final.api.leases.Leased deploymentId
  record : ∀ record ∈ final.api.store.latestCatalog, record.deploymentId = deploymentId →
    record.state ≠ .candidate ∧ record.state ≠ .active
  previous : ∀ record ∈ start.api.store.latestCatalog,
    record.replicaId = ctx.replicaId → record.Serving →
      record ∈ final.api.store.latestCatalog ∧
        (Running start.containers (containerName ctx record.deploymentId) →
          Running final.containers (containerName ctx record.deploymentId))

section Keys

variable {deploymentId : String} {state other : DeploymentState}

theorem stateName_injective : Function.Injective stateName := by
  intro state other same
  cases state <;> cases other <;> first | rfl | exact absurd same (by decide)

theorem catalogKey_inj : catalogKey deploymentId state = catalogKey deploymentId other ↔
    state = other := by
  refine ⟨fun same => stateName_injective ?_, fun same => same ▸ rfl⟩
  simpa [catalogKey, ← String.toList_inj] using same

theorem releaseKey_ne_catalogKey {otherId : String} :
    releaseKey otherId ≠ catalogKey deploymentId state := by
  simp [catalogKey, releaseKey, ← String.toList_inj]

theorem leaseKey_ne_releaseKey : leaseKey deploymentId ≠ releaseKey deploymentId := by
  simp [leaseKey, releaseKey, ← String.toList_inj]

theorem leaseKey_ne_catalogKey {otherId : String} :
    leaseKey otherId ≠ catalogKey deploymentId state := by
  simp [leaseKey, catalogKey, ← String.toList_inj]

end Keys

/-- The record that a call was answered with, if it was a commit. -/
def committed (call : Call Request Reply) : Option CatalogRecord :=
  match call.answer with
  | some (.ok (.agent (.catalogCommitted record))) => some record
  | _ => none

/-- The records that a host has logged or that a run's commits were answered with. -/
def recordsOf (host : Host) (calls : List (Call Request Reply)) : List CatalogRecord :=
  host.api.store.catalogOperations ++ calls.filterMap committed

section Staging

variable (hash : ContentHash) (scope : MembershipScope)
variable (ctx : EndpointDeploymentContext) (deploymentId : String)
variable (stopped : Option String) (known : Set CatalogRecord)

/-- The host between the lease of an address and the clean-up: nothing was changed but
the candidate's own container, record and lease, and the container that was stopped. -/
structure Staged (start host : Host) : Prop where
  identity : host.api.catalogIdentity = start.api.catalogIdentity
  grounded : host.api.Grounded hash scope
  logged : ∀ record ∈ host.api.store.catalogOperations, record ∈ known
  others : ∀ deployment, deployment ≠ deploymentId →
    host.slots deployment = start.slots deployment
  yields : ∀ identity, host.api.catalogIdentity = some identity →
    ∀ current, host.slots deploymentId = some current →
      current.replicaId = ctx.replicaId ∧
        ∀ owner, host.api.store.localOwner hash identity = some owner →
          current.ownerEpoch ≤ owner.ownerEpoch
  untombstoned : host.api.responses[catalogKey deploymentId .tombstoned]? = none
  unreleased : host.api.responses[releaseKey deploymentId]? = none
  containers : ∀ name, name ≠ containerName ctx deploymentId → stopped ≠ some name →
    host.containers[name]? = start.containers[name]?
  leased : host.api.leases.Leased deploymentId

/-- The calls between the lease of an address and the clean-up. -/
def Staging : Request → Prop
  | .agent (some key) (.catalogCommit commit) =>
      commit.deploymentId = deploymentId ∧ commit.replicaId = ctx.replicaId ∧
        key = catalogKey deploymentId commit.state ∧ commit.state ≠ .tombstoned
  | .agent _ _ => False
  | .stop name => stopped = some name
  | .createAndStart run => run.name = containerName ctx deploymentId
  | .start _ | .removeIfPresent _ => False
  | _ => True

/-- A call that commits only records of a set. -/
def Commits (call : Call Request Reply) : Prop :=
  ∀ record, call.answer = some (.ok (.agent (.catalogCommitted record))) → record ∈ known

/-- The calls of a run commit records that the run is answered with. -/
theorem commits_recordsOf
    (member : call ∈ calls) :
    Commits { record | record ∈ recordsOf host calls } call := fun _ answered =>
  List.mem_append_right _ (List.mem_filterMap.mpr ⟨call, member, by simp [committed, answered]⟩)

variable {hash scope ctx deploymentId stopped known} {start host : Host}

/-- A commit of the candidate keeps the host staged. -/
theorem Staged.perform_commit
    (staged : Staged hash scope ctx deploymentId stopped known start host)
    (deployment : commit.deploymentId = deploymentId)
    (replica : commit.replicaId = ctx.replicaId)
    (standing : commit.state ≠ .tombstoned)
    (performed : Host.perform hash conditions host
      (.agent (some (catalogKey deploymentId commit.state)) (.catalogCommit commit)) =
        (reply, next))
    (commits : ∀ record, reply = .ok (.agent (.catalogCommitted record)) → record ∈ known) :
    Staged hash scope ctx deploymentId stopped known start next := by
  have tombstoneKey : catalogKey deploymentId commit.state ≠
      catalogKey deploymentId .tombstoned := fun same => standing (catalogKey_inj.mp same)
  have untouched : ∀ result,
      (host.api.responses.insert (catalogKey deploymentId commit.state)
        result)[catalogKey deploymentId .tombstoned]? = none ∧
      (host.api.responses.insert (catalogKey deploymentId commit.state)
        result)[releaseKey deploymentId]? = none := by
    intro result
    simp [Std.ExtTreeMap.getElem?_insert, tombstoneKey, releaseKey_ne_catalogKey.symm,
      staged.untombstoned, staged.unreleased]
  rcases perform_catalogCommit_cases performed with
    ⟨_, _, _, rfl⟩ | ⟨_, error, _, rfl⟩ |
      ⟨_, identity, record, store, configured, committed, confirmed, rfl⟩
  · exact staged
  · exact { staged with
      grounded := ⟨staged.grounded.proper, staged.grounded.inScope⟩
      untombstoned := (untouched _).1
      unreleased := (untouched _).2 }
  · obtain ⟨address, owner, _, _, member, _, written, _⟩ :=
      AgentStore.applyCatalog_of_catalogCommit committed
    obtain ⟨proper, members, frame, logged, winners⟩ :=
      (staged.grounded.proper_of_identity configured).catalogCommit_frame committed
    have sameOwner : ∀ other, store.localOwner hash other =
        host.api.store.localOwner hash other := by
      intro other
      simp only [AgentStore.localOwner, AgentStore.membershipOperations, members]
    refine { staged with
      grounded := ?_
      logged := ?_
      others := ?_
      yields := ?_
      untombstoned := (untouched _).1
      unreleased := (untouched _).2 }
    · exact ⟨staged.grounded.inScope identity configured ▸ proper, staged.grounded.inScope⟩
    · intro taken member
      rcases logged taken member with before | rfl
      · exact staged.logged taken before
      · exact commits taken confirmed
    · intro other different
      exact (frame other (deployment ▸ different)).trans (staged.others other different)
    · intro other same current stands
      obtain rfl : identity = other := Option.some.inj (configured.symm.trans same)
      rcases winners deploymentId current stands with before | rfl
      · obtain ⟨sameReplica, epochs⟩ := staged.yields identity configured current before
        exact ⟨sameReplica, fun owner known => epochs owner (sameOwner identity ▸ known)⟩
      · refine ⟨by rw [written]; exact replica, fun known owned => ?_⟩
        rw [sameOwner, member] at owned
        rw [written, ← Option.some.inj owned]
        exact le_rfl

/-- Every staging call keeps the host staged. -/
theorem Staged.settle
    (staged : Staged hash scope ctx deploymentId stopped known start host)
    (fate : Fate Conditions DeployError)
    (staging : Staging ctx deploymentId stopped request)
    (commits : Commits known ((hostWorld hash).settle host request fate).1) :
    Staged hash scope ctx deploymentId stopped known start
      ((hostWorld hash).settle host request fate).2 := by
  rcases (hostWorld hash).settle_state host request fate with same | ⟨conditions, next, answer⟩
  · rwa [same]
  · rw [next]
    rw [Commits, answer] at commits
    have moved : ∀ {after : Host}, after.api = host.api →
        (∀ name, name ≠ containerName ctx deploymentId → stopped ≠ some name →
          after.containers[name]? = host.containers[name]?) →
        Staged hash scope ctx deploymentId stopped known start after := by
      intro after sameApi frame
      constructor
      case containers => exact fun name candidate other =>
        (frame name candidate other).trans (staged.containers name candidate other)
      all_goals simp only [Host.slots, sameApi]
      exacts [staged.identity, staged.grounded, staged.logged, staged.others, staged.yields,
        staged.untombstoned, staged.unreleased, staged.leased]
    cases request with
    | agent key body =>
        cases key with
        | none => exact staging.elim
        | some key =>
            cases body with
            | catalogCommit commit =>
                obtain ⟨deployment, replica, rfl, standing⟩ := staging
                exact staged.perform_commit deployment replica standing rfl
                  fun record confirmed => commits record (congrArg some confirmed)
            | _ => exact staging.elim
    | stop name =>
        refine moved (setRunning_frame host name false).1 fun other _ different => ?_
        refine (setRunning_frame host name false).2 other fun same => different ?_
        rw [same]
        exact staging
    | createAndStart run =>
        refine moved (create_frame host conditions run).1 fun other candidate _ => ?_
        exact (create_frame host conditions run).2 other (staging ▸ candidate)
    | start name => exact staging.elim
    | removeIfPresent name => exact staging.elim
    | waitUntilHealthy name =>
        change Staged hash scope ctx deploymentId stopped known start (Prod.snd (if _ then _ else _))
        split <;> exact staged
    | _ => exact staged

end Staging

section CleanUp

variable {hash : ContentHash} {scope : MembershipScope} {ctx : EndpointDeploymentContext}
variable {clock : Clock} {deploymentId : String} {known : Set CatalogRecord}
variable {start host final : Host}
variable {calls : List (Call Request Reply)} {address : Ipv4Addr}

/-- The container that a run stops first. -/
def stoppedName (ctx : EndpointDeploymentContext) (previous : Option CatalogRecord) :
    Option String :=
  if ctx.service.stopFirst then
    previous.map fun record => containerName ctx record.deploymentId
  else none

/-- A complete run of a single call without failure performed it. -/
theorem performed_of_ask {α : Type}
    {decode : Reply → α}
    {value : α}
    (runs : Script.Runs (hostWorld hash) (Script.ask request decode) host (some value) calls
      final)
    (fine : ∀ call ∈ calls, ¬Failing call.reply) :
    ∃ conditions response, Host.perform hash conditions host request = (.ok response, final) ∧
      ∃ call ∈ calls, call.answer = some (.ok response) := by
  obtain ⟨fate, rfl, rfl, _⟩ := runs.ask_some
  have genuine := fine _ (List.mem_singleton_self _)
  cases replied : ((hostWorld hash).settle host request fate).1.reply with
  | error error => exact absurd ⟨error, replied⟩ genuine
  | ok response =>
      obtain ⟨answered, conditions, performed⟩ := performed_of_ok replied
      exact ⟨conditions, response, performed, _, List.mem_singleton_self _, answered⟩

/-- What is left of a candidate after its release: no container, no lease, and a
tombstone. -/
structure Released
    (ctx : EndpointDeploymentContext)
    (deploymentId : String)
    (before after : Host) : Prop where
  containers : after.containers = before.containers.erase (containerName ctx deploymentId)
  lease : ¬after.api.leases.Leased deploymentId
  record : ∀ record ∈ after.api.store.latestCatalog, record.deploymentId = deploymentId →
    record.state = .tombstoned
  others : ∀ deployment, deployment ≠ deploymentId →
    after.slots deployment = before.slots deployment

/-- Releasing a staged candidate without failure leaves nothing of it. -/
theorem Staged.released
    {stopped : Option String}
    (staged : Staged hash scope ctx deploymentId stopped known start host)
    (distinct : Set.InjOn hash.catalog known)
    (runs : Script.Runs (hostWorld hash) (releaseCandidate ctx clock deploymentId address)
      host (some ()) calls final)
    (fine : ∀ call ∈ calls, ¬Failing call.reply)
    (commits : ∀ call ∈ calls, Commits known call) :
    Released ctx deploymentId host final := by
  obtain ⟨_, _, _, removed, first, afterRemoval, rfl⟩ := runs.bind_some
  obtain ⟨_, _, _, tombstoned, second, afterCommit, rfl⟩ := afterRemoval.bind_some
  obtain ⟨_, _, _, released, third, atEnd, rfl⟩ := afterCommit.bind_some
  cases atEnd
  simp only [List.forall_mem_append, List.append_nil] at fine commits
  obtain ⟨_, _, removes, _⟩ := performed_of_ask first fine.1
  obtain ⟨_, rfl⟩ := Prod.mk.inj removes
  rw [commitCatalog_eq_ask] at second
  obtain ⟨_, _, committed, call, made, answered⟩ := performed_of_ask second fine.2.1
  obtain ⟨_, _, releases, _⟩ := performed_of_ask third fine.2.2
  rcases perform_catalogCommit_cases committed with
    ⟨_, cached, _, _⟩ | ⟨_, error, refused, _⟩ |
      ⟨_, identity, record, store, configured, written, confirmed, rfl⟩
  · simp [staged.untombstoned] at cached
  · simp at refused
  · have proper := staged.grounded.proper_of_identity configured
    have recorded : record ∈ known := commits.2.1 call made record (confirmed ▸ answered)
    have wins := proper.catalogCommit_wins (by exact staged.yields identity configured)
      (fun logged member same => distinct (staged.logged logged member) recorded same) written
    obtain ⟨after, _, _, _, _⟩ := proper.catalogCommit_frame written
    obtain ⟨_, _, _, _, _, _, shape, _⟩ := AgentStore.applyCatalog_of_catalogCommit written
    have unreleased : (host.api.responses.insert (catalogKey deploymentId .tombstoned)
        (.ok (.catalogCommitted record)))[releaseKey deploymentId]? = none := by
      simp [Std.ExtTreeMap.getElem?_insert, releaseKey_ne_catalogKey.symm, staged.unreleased]
    obtain ⟨sameContainers, sameStore, unleased⟩ :=
      perform_releaseAddress_ok unreleased releases
    refine ⟨sameContainers, unleased, ?_, ?_⟩
    · intro current latest same
      rw [sameStore, AgentStore.mem_latestCatalog] at latest
      obtain ⟨deployment, stands⟩ := latest
      obtain rfl : current.deploymentId = deployment := after.sound.catalog.keyed _ _ stands
      rw [wins, same, Function.update_self] at stands
      rw [← Option.some.inj stands, shape]
      rfl
    · intro deployment different
      simp only [Host.slots, sameStore]
      rw [wins, Function.update_of_ne different]

/-- Starting the container that was stopped first runs it again. -/
theorem restored
    {previous : Option CatalogRecord}
    (runs : Script.Runs (hostWorld hash) (restoreStopFirst ctx previous) host (some ()) calls
      final)
    (fine : ∀ call ∈ calls, ¬Failing call.reply) :
    final.api = host.api ∧
      (∀ name, stoppedName ctx previous ≠ some name →
        final.containers[name]? = host.containers[name]?) ∧
      ∀ name, stoppedName ctx previous = some name →
        host.containers[name]? ≠ none ∧ Running final.containers name := by
  unfold restoreStopFirst at runs
  split at runs
  · rename_i record stopFirst
    have stopped : stoppedName ctx (some record) =
        some (containerName ctx record.deploymentId) := by
      simp [stoppedName, stopFirst]
    obtain ⟨_, _, _, started, first, atEnd, rfl⟩ := runs.bind_some
    cases atEnd
    simp only [List.append_nil] at fine
    obtain ⟨_, _, performed, _⟩ := performed_of_ask first fine
    obtain ⟨container, found, rfl⟩ := setRunning_ok performed
    rw [stopped]
    refine ⟨rfl, fun name different => ?_, fun name same => ?_⟩
    · rw [ne_eq, Option.some.injEq] at different
      simp [Std.ExtTreeMap.getElem?_insert, different]
    · obtain rfl := Option.some.inj same
      simp [found, Running]
  · rename_i other
    cases runs
    refine ⟨rfl, fun _ _ => rfl, fun name stopped => ?_⟩
    unfold stoppedName at stopped
    split at stopped
    · rename_i stopFirst
      obtain ⟨record, found, _⟩ := Option.map_eq_some_iff.mp stopped
      exact (other record stopFirst found).elim
    · simp at stopped

/-- Cleaning up after a staged candidate without failure rolls the run back. -/
theorem Staged.rolledBack
    {released : Host}
    {cleanUp restoring : List (Call Request Reply)}
    (staged : Staged hash scope ctx deploymentId (stoppedName ctx previous) known start host)
    (fresh : Fresh ctx deploymentId start)
    (keyed : ∀ deployment record, start.slots deployment = some record →
      record.deploymentId = deployment)
    (distinct : Set.InjOn hash.catalog known)
    (releasing : Script.Runs (hostWorld hash) (releaseCandidate ctx clock deploymentId address)
      host (some ()) cleanUp released)
    (restores : Script.Runs (hostWorld hash) (restoreStopFirst ctx previous) released
      (some ()) restoring final)
    (fine : ∀ call ∈ cleanUp ++ restoring, ¬Failing call.reply)
    (commits : ∀ call ∈ cleanUp, Commits known call) :
    RolledBack ctx deploymentId start final := by
  rw [List.forall_mem_append] at fine
  have gone := staged.released distinct releasing fine.1 commits
  obtain ⟨sameApi, untouched, restarted⟩ := restored restores fine.2
  have erased : released.containers[containerName ctx deploymentId]? = none := by
    simp [gone.containers]
  have unstopped : stoppedName ctx previous ≠ some (containerName ctx deploymentId) :=
    fun same => (restarted _ same).1 erased
  refine ⟨?_, by rw [sameApi]; exact gone.lease, ?_, ?_⟩
  · rw [untouched _ unstopped, erased]
  · intro record latest same
    rw [sameApi] at latest
    simp [gone.record record latest same]
  · intro record latest _ _
    obtain ⟨deployment, stands⟩ := AgentStore.mem_latestCatalog.mp latest
    have different : deployment ≠ deploymentId :=
      keyed _ _ stands ▸ fresh.record record latest
    refine ⟨AgentStore.mem_latestCatalog.mpr ⟨deployment, ?_⟩, fun running => ?_⟩
    · rw [sameApi]
      exact ((gone.others deployment different).trans
        (staged.others deployment different)).trans stands
    · by_cases stopped : stoppedName ctx previous =
          some (containerName ctx record.deploymentId)
      · exact (restarted _ stopped).2
      · have candidate : containerName ctx record.deploymentId ≠
            containerName ctx deploymentId := by
          intro same
          rw [same] at running
          simp [Running, fresh.container] at running
        rw [Running, untouched _ stopped, gone.containers, Std.ExtTreeMap.getElem?_erase,
          if_neg (by simpa using candidate.symm), staged.containers _ candidate stopped]
        exact running

end CleanUp

end Cli
end Jiji
