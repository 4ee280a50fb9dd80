import Jiji.Cli.DeployPhases

/-!
# Deployments after interrupted deployments

The operator's process may be killed after any call of a run.  A later run reads
the catalog and retires one previous deployment, the first active and healthy one
of its replica.  A run that succeeds leaves its own deployment and every other live
record that it did not retire: what an interrupted run left as a candidate stays.
-/

namespace Jiji
namespace Cli

open Network Agent Control Replication

section Runs

variable {hash : ContentHash} {scope : MembershipScope}
variable {members : Ledger String MembershipRecord} {known : Set CatalogRecord}
variable {ids : Set String} {ctx : EndpointDeploymentContext} {clock : Clock}
variable {host final : Host} {calls : List (Call Request Reply)}
variable {result : Option (Except DeployError Deployed)}

/-- The live records after a run: its own deployment, and those from before without the
one that it retired. -/
structure Succeeds (replicaId deploymentId : String) (previous : Option CatalogRecord)
    (before after : Host) : Prop where
  own : ∃ current, after.slots deploymentId = some current ∧
    current.replicaId = replicaId ∧ Live current
  others : ∀ deployment, deployment ≠ deploymentId → ∀ current, Live current →
    (after.slots deployment = some current ↔
      before.slots deployment = some current ∧ previous ≠ some current)

/-- What a run does from the lease of an address on. -/
theorem Underway.finish
    (underway : Underway hash scope members known ids ctx.replicaId deploymentId beforeServing
      start host)
    (distinct : Set.InjOn hash.catalog known)
    (member : deploymentId ∈ ids)
    (vacant : start.slots deploymentId = none)
    (found : ∀ record, previous = some record →
      start.slots record.deploymentId = some record ∧ record.replicaId = ctx.replicaId ∧
        Live record)
    {address : Ipv4Addr}
    {targets : List RouteTarget}
    {tcpTargets : List TcpRouteTarget}
    (runs : Script.Runs (hostWorld hash)
      ((cutOver ctx clock deploymentId address previous targets tcpTargets).andThen fun _ =>
        concludeDeployment ctx clock deploymentId address previous) host result calls final)
    (commits : ∀ call ∈ calls, Commits known call) :
    Tended hash scope ctx.replicaId members known ids final ∧
      ∀ deployed, result = some (.ok deployed) →
        Succeeds ctx.replicaId deploymentId previous start final := by
  have undrained : DeploymentState.draining ∉ ofCandidate := by simp [ofCandidate]
  rcases (underway.mono beforeServing_subset).andThen_cases distinct member undrained
      uses_cutOver runs commits with
    ⟨after, failed⟩ | ⟨_, _, _, middle, after, cutting, concluding, lawful, rest⟩
  · exact ⟨after.tended, fun deployed succeeded => absurd succeeded (failed deployed)⟩
  · have other : ∀ record, previous = some record → record.deploymentId ≠ deploymentId := by
      intro record same deployment
      have stands := (found record same).1
      rw [deployment, vacant] at stands
      simp at stands
    have stillFound : ∀ record, previous = some record →
        middle.slots record.deploymentId = some record ∧ record.replicaId = ctx.replicaId ∧
          Live record := by
      intro record same
      rw [after.others _ (other record same)]
      exact found record same
    obtain ⟨kept, succeeded⟩ := after.tended.conclude distinct stillFound concluding rest
    refine ⟨kept, fun deployed success => ?_⟩
    have retires := succeeded deployed success
    obtain ⟨current, stands, live⟩ := underway.live_of_cutOver distinct member cutting lawful
    refine ⟨⟨current, (retires _ current live).mpr ⟨stands, fun same => ?_⟩,
      after.own current stands, live⟩, ?_⟩
    · exact other current same
        (after.tended.grounded.proper.sound.catalog.keyed _ _ stands)
    · intro deployment different alive stillLive
      rw [retires deployment alive stillLive, after.others deployment different]

/-- The previous deployment of a run is live and stands in the catalog. -/
theorem found_of_previousOf
    (grounded : host.api.Grounded hash scope)
    (found : previousOf replicaId host.api.store.latestCatalog = some previous) :
    host.slots previous.deploymentId = some previous ∧ previous.replicaId = replicaId ∧
      Live previous := by
  have latest := List.mem_of_find?_eq_some found
  have chosen := List.find?_some found
  simp only [Bool.and_eq_true, decide_eq_true_eq] at chosen
  obtain ⟨deployment, stands⟩ := AgentStore.mem_latestCatalog.mp latest
  obtain rfl : previous.deploymentId = deployment :=
    grounded.proper.sound.catalog.keyed _ _ stands
  exact ⟨stands, chosen.1, Or.inr chosen.2.1⟩

/-- A run with a new identifier keeps its host tended, whatever its end, and a run that
succeeds replaces the previous deployment. -/
theorem Tended.deploy
    (tended : Tended hash scope ctx.replicaId members known ids host)
    (distinct : Set.InjOn hash.catalog known)
    (new : deploymentIdOf digest ctx clock ∉ ids)
    (runs : Script.Runs (hostWorld hash) (deployDynamicEndpoint ctx clock digest) host result
      calls final)
    (commits : ∀ call ∈ calls, Commits known call) :
    Tended hash scope ctx.replicaId members known (insert (deploymentIdOf digest ctx clock) ids)
        final ∧
      ∀ deployed, result = some (.ok deployed) →
        Succeeds ctx.replicaId (deploymentIdOf digest ctx clock)
          (previousOf ctx.replicaId host.api.store.latestCatalog) host final := by
  have member := Set.mem_insert (deploymentIdOf digest ctx clock) ids
  have undrained : DeploymentState.draining ∉ beforeServing := by simp [beforeServing]
  have vacant : host.slots (deploymentIdOf digest ctx clock) = none := by
    cases stands : host.slots (deploymentIdOf digest ctx clock) with
    | none => rfl
    | some current => exact absurd (tended.slots _ _ stands) new
  have underway : Underway hash scope members known
      (insert (deploymentIdOf digest ctx clock) ids) ctx.replicaId
      (deploymentIdOf digest ctx clock) beforeServing host host :=
    ⟨tended.mono (Set.subset_insert _ _), fun _ _ => rfl, by simp [vacant],
      fun state _ => tended.cached _ state new⟩
  have listing : catalog.Uses (Advancing ctx.replicaId (deploymentIdOf digest ctx clock)
      beforeServing) := uses_catalog (.of_plain trivial)
  have finished : ∀ {other : Host} {result : Option (Except DeployError Deployed)},
      Underway hash scope members known (insert (deploymentIdOf digest ctx clock) ids)
        ctx.replicaId (deploymentIdOf digest ctx clock) beforeServing host other ∧
        (∀ value, result ≠ some (.ok value)) →
      Tended hash scope ctx.replicaId members known
          (insert (deploymentIdOf digest ctx clock) ids) other ∧
        ∀ deployed, result = some (.ok deployed) →
          Succeeds ctx.replicaId (deploymentIdOf digest ctx clock)
            (previousOf ctx.replicaId host.api.store.latestCatalog) host other :=
    fun ended => ⟨ended.1.tended, fun deployed success => absurd success (ended.2 deployed)⟩
  rcases underway.andThen_cases distinct member undrained listing runs commits with
    ended | ⟨records, _, _, _, _, listed, afterListing, _, commits⟩
  · exact finished ended
  obtain ⟨rfl, rfl⟩ := listed_of_runs listed
  rcases underway.andThen_cases distinct member undrained
      (uses_leaseAddress fun _ plain _ => .of_plain plain) afterListing commits with
    ended | ⟨address, _, _, _, leased, _, afterLease, _, commits⟩
  · exact finished ended
  rcases leased.andThen_cases distinct member undrained
      (uses_stopPrevious fun _ _ => .of_plain trivial) afterLease commits with
    ended | ⟨_, _, _, _, stopped, _, afterStop, _, commits⟩
  · exact finished ended
  rcases stopped.andThen_cases distinct member undrained
      (by exact uses_command (.of_plain trivial)) afterStop commits with
    ended | ⟨_, _, _, _, pulled, _, afterPull, _, commits⟩
  · exact finished ended
  rcases pulled.andThen_cases distinct member undrained
      (by exact uses_command (.of_plain trivial)) afterPull commits with
    ended | ⟨_, _, _, _, mounted, _, afterMounts, _, commits⟩
  · exact finished ended
  rcases mounted.andThen_cases distinct member undrained
      (uses_stageEnvFile (.of_plain trivial)) afterMounts commits with
    ended | ⟨_, _, _, _, staged, _, afterStaging, _, commits⟩
  · exact finished ended
  split at afterStaging
  · cases afterStaging
    exact finished ⟨staged, by simp⟩
  · exact staged.finish distinct member vacant
      (fun record same => found_of_previousOf tended.grounded same) afterStaging commits

end Runs

/-- One run of a replica's deployment, with the fates of its calls. -/
structure Attempt where
  ctx : EndpointDeploymentContext
  clock : Clock
  fates : List (Fate Conditions DeployError)

namespace Attempt

variable (hash : ContentHash) (digest : String → String)

def deploymentId (attempt : Attempt) : String :=
  deploymentIdOf digest attempt.ctx attempt.clock

/-- Let an attempt run on a host. -/
def execute (attempt : Attempt) (host : Host) :
    Execution Request Reply Host (Except DeployError Deployed) :=
  (deployDynamicEndpoint attempt.ctx attempt.clock digest).run (hostWorld hash) attempt.fates
    host

/-- The host after a sequence of attempts, and the calls that they made. -/
def history (host : Host) : List Attempt → Host × List (Call Request Reply)
  | [] => (host, [])
  | attempt :: attempts =>
      let execution := attempt.execute hash digest host
      let (final, calls) := history execution.state attempts
      (final, execution.calls ++ calls)

/-- The last attempt of a sequence runs on the host that the others left. -/
theorem history_concat (host : Host) (attempts : List Attempt) (last : Attempt) :
    history hash digest host (attempts ++ [last]) =
      ((last.execute hash digest (history hash digest host attempts).1).state,
        (history hash digest host attempts).2 ++
          (last.execute hash digest (history hash digest host attempts).1).calls) := by
  induction attempts generalizing host with
  | nil => simp [history]
  | cons attempt attempts inductionHypothesis =>
      simp only [List.cons_append, history, inductionHypothesis, List.append_assoc]

end Attempt

section History

variable {hash : ContentHash} {scope : MembershipScope} {digest : String → String}
variable {members : Ledger String MembershipRecord} {known : Set CatalogRecord}
variable {ids : Set String} {replicaId : String} {host : Host} {attempts : List Attempt}

/-- Attempts with new identifiers keep their host tended. -/
theorem Tended.history
    (tended : Tended hash scope replicaId members known ids host)
    (distinct : Set.InjOn hash.catalog known)
    (oneReplica : ∀ attempt ∈ attempts, attempt.ctx.replicaId = replicaId)
    (new : ∀ attempt ∈ attempts, attempt.deploymentId digest ∉ ids)
    (separate : (attempts.map (Attempt.deploymentId digest)).Nodup)
    (commits : ∀ call ∈ (Attempt.history hash digest host attempts).2, Commits known call) :
    Tended hash scope replicaId members known
      (ids ∪ { deployment | deployment ∈ attempts.map (Attempt.deploymentId digest) })
      (Attempt.history hash digest host attempts).1 := by
  induction attempts generalizing host ids with
  | nil => exact tended.mono Set.subset_union_left
  | cons attempt attempts inductionHypothesis =>
      simp only [Attempt.history, List.forall_mem_append] at commits ⊢
      rw [List.forall_mem_cons] at oneReplica new
      rw [List.map_cons, List.nodup_cons] at separate
      obtain ⟨rfl, oneReplica⟩ := oneReplica
      have runs := Script.runs_run (hostWorld hash)
        (deployDynamicEndpoint attempt.ctx attempt.clock digest) attempt.fates host
      have kept := (tended.deploy distinct new.1 runs commits.1).1
      have later := inductionHypothesis kept oneReplica ?_ separate.2 commits.2
      · refine later.mono ?_
        rintro deployment ((rfl | before) | after)
        · exact Or.inr List.mem_cons_self
        · exact Or.inl before
        · exact Or.inr (List.mem_cons_of_mem _ after)
      · rintro other member (same | before)
        · exact separate.1 (List.mem_map.mpr ⟨other, member, same⟩)
        · exact new.2 other member before

/-- A host that has neither a record of a replica nor a cached commit is tended. -/
theorem tended_of_pristine
    (grounded : host.api.Grounded hash scope)
    (logged : ∀ record ∈ host.api.store.catalogOperations, record ∈ known)
    (noRecord : ∀ record ∈ host.api.store.latestCatalog, record.replicaId ≠ replicaId)
    (noResponse : ∀ deployment state,
      host.api.responses[catalogKey deployment state]? = none) :
    Tended hash scope replicaId host.api.store.membership known
      { deployment | ∃ current, host.slots deployment = some current } host where
  grounded := grounded
  members := rfl
  logged := logged
  slots := fun _ current stands => ⟨current, stands⟩
  cached := fun deployment state _ => noResponse deployment state
  drained := by simp [noResponse]
  epochs := fun _ current stands same =>
    absurd same (noRecord current (AgentStore.mem_latestCatalog.mpr ⟨_, stands⟩))

/-- A deployment is live, and no other deployment of its replica is. -/
def OnlyLive (replicaId deploymentId : String) (host : Host) : Prop :=
  (∃ record ∈ host.api.store.latestCatalog, record.deploymentId = deploymentId ∧
      record.replicaId = replicaId ∧ Live record) ∧
    ∀ record ∈ host.api.store.latestCatalog, record.replicaId = replicaId → Live record →
      record.deploymentId = deploymentId

/-- After a successful run its deployment is the only live one of the replica exactly
when the run retired every other live one. -/
theorem Succeeds.onlyLive_iff
    (succeeds : Succeeds replicaId deploymentId previous before after)
    (vacant : before.slots deploymentId = none)
    (groundedBefore : before.api.Grounded hash scope)
    (groundedAfter : after.api.Grounded hash scope) :
    OnlyLive replicaId deploymentId after ↔
      ∀ record ∈ before.api.store.latestCatalog, record.replicaId = replicaId →
        Live record → previous = some record := by
  constructor
  · rintro ⟨_, only⟩ record latest replica live
    obtain ⟨deployment, stands⟩ := AgentStore.mem_latestCatalog.mp latest
    obtain rfl : record.deploymentId = deployment :=
      groundedBefore.proper.sound.catalog.keyed _ _ stands
    have different : record.deploymentId ≠ deploymentId := by
      intro same
      simp [same, vacant] at stands
    by_contra kept
    have still := (succeeds.others _ different record live).mpr ⟨stands, kept⟩
    exact different (only record (AgentStore.mem_latestCatalog.mpr ⟨_, still⟩) replica live)
  · intro retired
    obtain ⟨current, stands, replica, live⟩ := succeeds.own
    refine ⟨⟨current, AgentStore.mem_latestCatalog.mpr ⟨_, stands⟩,
      groundedAfter.proper.sound.catalog.keyed _ _ stands, replica, live⟩, ?_⟩
    intro record latest sameReplica alive
    obtain ⟨deployment, found⟩ := AgentStore.mem_latestCatalog.mp latest
    obtain rfl : record.deploymentId = deployment :=
      groundedAfter.proper.sound.catalog.keyed _ _ found
    by_contra different
    obtain ⟨before, kept⟩ := (succeeds.others _ different record alive).mp found
    exact kept (retired record (AgentStore.mem_latestCatalog.mpr ⟨_, before⟩) sameReplica
      alive)

/-- After any sequence of completed or interrupted runs of a replica, a run that
succeeds leaves its deployment as the only live one of the replica exactly when the
only live deployment before it was the one that it takes as the previous one. -/
theorem history_onlyLive_iff
    (hash : ContentHash)
    (scope : MembershipScope)
    (digest : String → String)
    (replicaId : String)
    (host : Host)
    (attempts : List Attempt)
    (last : Attempt)
    (deployed : Deployed)
    (stored : ∃ calls, host.api.store = AgentStore.run hash scope .empty calls)
    (inScope : ∀ identity, host.api.catalogIdentity = some identity →
      identity.scope = scope)
    (noRecord : ∀ record ∈ host.api.store.latestCatalog, record.replicaId ≠ replicaId)
    (noResponse : ∀ deployment state,
      host.api.responses[catalogKey deployment state]? = none)
    (oneReplica : ∀ attempt ∈ last :: attempts, attempt.ctx.replicaId = replicaId)
    (new : ∀ attempt ∈ last :: attempts, ∀ record ∈ host.api.store.latestCatalog,
      record.deploymentId ≠ attempt.deploymentId digest)
    (separate : ((last :: attempts).map (Attempt.deploymentId digest)).Nodup)
    (distinct : Set.InjOn hash.catalog { record | record ∈ recordsOf host
      (Attempt.history hash digest host (attempts ++ [last])).2 })
    (success : (last.execute hash digest
      (Attempt.history hash digest host attempts).1).result = some (.ok deployed)) :
    OnlyLive replicaId (last.deploymentId digest)
        (Attempt.history hash digest host (attempts ++ [last])).1 ↔
      ∀ record ∈ (Attempt.history hash digest host attempts).1.api.store.latestCatalog,
        record.replicaId = replicaId → Live record →
          previousOf replicaId
            (Attempt.history hash digest host attempts).1.api.store.latestCatalog =
              some record := by
  have grounded : host.api.Grounded hash scope := by
    obtain ⟨calls, same⟩ := stored
    exact ⟨same ▸ AgentStore.proper_run hash scope calls, inScope⟩
  have lawful : ∀ call ∈ (Attempt.history hash digest host (attempts ++ [last])).2,
      Commits { record | record ∈ recordsOf host
        (Attempt.history hash digest host (attempts ++ [last])).2 } call :=
    fun call member => commits_recordsOf member
  rw [Attempt.history_concat] at lawful distinct ⊢
  rw [List.forall_mem_append] at lawful
  rw [List.forall_mem_cons] at oneReplica new
  rw [List.map_cons, List.nodup_cons] at separate
  obtain ⟨rfl, oneReplica⟩ := oneReplica
  have absent : ∀ attempt : Attempt, (∀ record ∈ host.api.store.latestCatalog,
      record.deploymentId ≠ attempt.deploymentId digest) →
      ¬∃ current, host.slots (attempt.deploymentId digest) = some current := by
    rintro attempt other ⟨current, stands⟩
    exact other current (AgentStore.mem_latestCatalog.mpr ⟨_, stands⟩)
      (grounded.proper.sound.catalog.keyed _ _ stands)
  have tended := (tended_of_pristine grounded (fun _ => List.mem_append_left _) noRecord
    noResponse).history distinct oneReplica
      (fun attempt member => absent attempt (new.2 attempt member)) separate.2 lawful.1
  have unused : last.deploymentId digest ∉ { deployment | ∃ current,
      host.slots deployment = some current } ∪
      { deployment | deployment ∈ attempts.map (Attempt.deploymentId digest) } := by
    rintro (before | other)
    · exact absent last new.1 before
    · exact separate.1 other
  have runs := Script.runs_run (hostWorld hash)
    (deployDynamicEndpoint last.ctx last.clock digest) last.fates
    (Attempt.history hash digest host attempts).1
  obtain ⟨kept, succeeded⟩ := tended.deploy distinct unused runs lawful.2
  refine (succeeded deployed success).onlyLive_iff ?_ tended.grounded kept.grounded
  cases stands : (Attempt.history hash digest host attempts).1.slots
      (deploymentIdOf digest last.ctx last.clock) with
  | none => rfl
  | some current => exact absurd (tended.slots _ _ stands) unused

/-- A sample run of which some calls are answered before it is killed. -/
def sampleAttempt (nonce answers : ℕ) : Attempt :=
  ⟨sampleContext false, sampleClock nonce, List.replicate answers answered⟩

theorem history_onlyLive_sampleHost :
    OnlyLive "web@1" (sampleDeploymentId 2)
      (Attempt.history sampleContentHash sampleDigest sampleHost
        [sampleAttempt 1 10, sampleAttempt 2 30]).1 := by
  have success : ((sampleAttempt 2 30).execute sampleContentHash sampleDigest
      (Attempt.history sampleContentHash sampleDigest sampleHost
        [sampleAttempt 1 10]).1).result =
      some (.ok ⟨sampleDeploymentId 2, Ipv4Addr.ofOctets 10 211 1 5, false⟩) := by decide +kernel
  have empty : sampleHost.api.store.latestCatalog = [] := by decide
  have committed : ∀ record ∈ recordsOf sampleHost (Attempt.history sampleContentHash
      sampleDigest sampleHost [sampleAttempt 1 10, sampleAttempt 2 30]).2,
      record ∈ sampleDigests.map Prod.fst := by decide +kernel
  refine (history_onlyLive_iff sampleContentHash ⟨"p", 1⟩ sampleDigest "web@1" sampleHost
    [sampleAttempt 1 10] (sampleAttempt 2 30) _ ⟨_, rfl⟩ ?_ ?_ ?_ ?_ ?_ ?_
    (sampleContentHash_injOn.mono committed) success).mpr ?_
  · intro identity same
    rw [← Option.some.inj same]
    rfl
  · simp [empty]
  · simp [sampleHost]
  · decide +kernel
  · simp [empty]
  · decide +kernel
  · decide +kernel

/-- A run that is killed after it committed its candidate leaves a candidate that the
next successful run does not retire. -/
theorem interrupted_candidate_stays :
    let before := (Attempt.history sampleContentHash sampleDigest sampleHost
      [sampleAttempt 1 6]).1
    let last := (sampleAttempt 2 30).execute sampleContentHash sampleDigest before
    last.result = some (.ok ⟨sampleDeploymentId 2, Ipv4Addr.ofOctets 10 211 1 5, false⟩) ∧
      last.state.api.store.latestCatalog =
        [sampleCommitted 1 1 .candidate .unknown, sampleCommitted 2 3 .active .healthy] ∧
      ¬OnlyLive "web@1" (sampleDeploymentId 2) last.state := by
  have latest : ((sampleAttempt 2 30).execute sampleContentHash sampleDigest
      (Attempt.history sampleContentHash sampleDigest sampleHost
        [sampleAttempt 1 6]).1).state.api.store.latestCatalog =
      [sampleCommitted 1 1 .candidate .unknown, sampleCommitted 2 3 .active .healthy] := by
    decide +kernel
  refine ⟨by decide +kernel, latest, fun only => ?_⟩
  have same := only.2 (sampleCommitted 1 1 .candidate .unknown) (by simp [latest]) rfl
    (Or.inl rfl)
  exact absurd same (by decide)

end History

end Cli
end Jiji
