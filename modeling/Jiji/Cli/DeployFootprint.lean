import Jiji.Cli.DeployPhases

/-!
# What a deployment touches

A run touches three kinds of deployments: its own, the previous one of its replica,
and those of its service that earlier runs left draining.  Whichever of its calls fail
and wherever it is cut off, every other record of the catalog and every container of
another name is as it was.
-/

namespace Jiji
namespace Cli

open Agent Control Replication

/-- The deployments that a run may touch. -/
def footprint
    (digest : String → String)
    (ctx : EndpointDeploymentContext)
    (clock : Clock)
    (host : Host) : Set String :=
  { deployment | deployment = deploymentIdOf digest ctx clock ∨
    (∃ previous, previousOf ctx.replicaId host.api.store.latestCatalog = some previous ∧
      previous.deploymentId = deployment) ∨
    ∃ record, host.slots deployment = some record ∧
      stuckDraining ctx ctx.serviceName record = true }

/-- The calls that concern certain deployments and their containers, or none. -/
def Concerns (ctx : EndpointDeploymentContext) (deployments : Set String) : Request → Prop
  | .agent (some _) (.catalogCommit commit) => commit.deploymentId ∈ deployments
  | .stop name | .start name | .removeIfPresent name =>
      name ∈ containerName ctx '' deployments
  | .createAndStart run => run.name ∈ containerName ctx '' deployments
  | request => Plain request

/-- A host on which nothing but certain deployments and their containers has changed. -/
structure Spared
    (hash : ContentHash)
    (scope : MembershipScope)
    (ctx : EndpointDeploymentContext)
    (deployments : Set String)
    (start host : Host) : Prop where
  grounded : host.api.Grounded hash scope
  records : ∀ deployment ∉ deployments, host.slots deployment = start.slots deployment
  containers : ∀ name ∉ containerName ctx '' deployments,
    host.containers[name]? = start.containers[name]?

variable {hash : ContentHash} {scope : MembershipScope} {ctx : EndpointDeploymentContext}
variable {clock : Clock} {digest : String → String} {deployments : Set String}
variable {start host final : Host} {request : Request}

theorem concerns_of_idle (plain : Plain request) (idle : Idle request) :
    Concerns ctx deployments request := by
  unfold Concerns
  split
  · exact plain.elim
  · exact idle.elim
  · exact idle.elim
  · exact idle.elim
  · exact idle.elim
  · exact plain

/-- A call that concerns certain deployments leaves all other containers alone. -/
theorem Concerns.containers
    (concerns : Concerns ctx deployments request)
    (performed : Host.perform hash conditions host request = (reply, next))
    (other : name ∉ containerName ctx '' deployments) :
    next.containers[name]? = host.containers[name]? := by
  obtain rfl : (Host.perform hash conditions host request).2 = next := congrArg _ performed
  cases request with
  | stop stopped =>
      exact (setRunning_frame host stopped false).2 name fun same => other (same ▸ concerns)
  | start started =>
      exact (setRunning_frame host started true).2 name fun same => other (same ▸ concerns)
  | removeIfPresent removed =>
      have different : removed ≠ name := fun same => other (same ▸ concerns)
      simp [Host.perform, Std.ExtTreeMap.getElem?_erase, different]
  | createAndStart run =>
      exact (create_frame host conditions run).2 name fun same => other (same ▸ concerns)
  | waitUntilHealthy name =>
      simp only [Host.perform]
      split <;> rfl
  | _ => rfl

/-- Such a call is plain or commits a state of one of the deployments. -/
theorem Concerns.plain_or_commit (concerns : Concerns ctx deployments request) :
    Plain request ∨ ∃ key commit, request = .agent (some key) (.catalogCommit commit) ∧
      commit.deploymentId ∈ deployments := by
  unfold Concerns at concerns
  split at concerns
  · exact Or.inr ⟨_, _, rfl, concerns⟩
  all_goals first | exact Or.inl trivial | exact Or.inl concerns

/-- A call that concerns certain deployments spares all others. -/
theorem Spared.perform
    (spared : Spared hash scope ctx deployments start host)
    (concerns : Concerns ctx deployments request)
    (performed : Host.perform hash conditions host request = (reply, next)) :
    Spared hash scope ctx deployments start next := by
  have containers := fun name other =>
    (concerns.containers performed other).trans (spared.containers name other)
  rcases concerns.plain_or_commit with plain | ⟨key, commit, rfl, member⟩
  · obtain rfl : (Host.perform hash conditions host request).2 = next := congrArg _ performed
    refine ⟨⟨?_, ?_⟩, ?_, containers⟩
    · rw [(perform_plain plain).1]
      exact spared.grounded.proper
    · rw [(perform_plain plain).2.1]
      exact spared.grounded.inScope
    · simp only [Host.slots, (perform_plain plain).1]
      exact spared.records
  · rcases perform_catalogCommit_cases performed with ⟨_, _, _, rfl⟩ | ⟨_, _, _, rfl⟩ |
      ⟨_, identity, record, store, configured, committed, _, rfl⟩
    · exact spared
    · exact ⟨⟨spared.grounded.proper, spared.grounded.inScope⟩, spared.records, containers⟩
    · obtain ⟨proper, _, others, _⟩ :=
        (spared.grounded.proper_of_identity configured).catalogCommit_frame committed
      refine ⟨⟨spared.grounded.inScope identity configured ▸ proper,
        spared.grounded.inScope⟩, fun deployment outside => ?_, containers⟩
      exact (others deployment fun same => outside (same ▸ member)).trans
        (spared.records deployment outside)

/-- A script whose calls concern certain deployments spares all others. -/
theorem spared_of_uses {α : Type} {script : Remote α}
    (uses : script.Uses (Concerns ctx deployments)) :
    Script.Triple (hostWorld hash) (fun _ => True) (Spared hash scope ctx deployments start)
      script fun _ => Spared hash scope ctx deployments start := by
  refine .of_uses uses fun host request fate concerns _ spared => ?_
  rcases (hostWorld hash).settle_state host request fate with same | ⟨conditions, same, _⟩
  · rwa [same]
  · rw [same]
    exact spared.perform concerns rfl

theorem Spared.runs {α : Type} {script : Remote α} {result : Option α}
    (spared : Spared hash scope ctx deployments start host)
    (uses : script.Uses (Concerns ctx deployments))
    (runs : Script.Runs (hostWorld hash) script host result calls final) :
    Spared hash scope ctx deployments start final :=
  spared_of_uses uses host result calls final runs (fun _ _ => trivial) spared

section Parts

variable {previous : Option CatalogRecord} {deploymentId : String} {address : Network.Ipv4Addr}

/-- The cutover concerns the candidate and the previous deployment. -/
theorem concerns_cutOver
    (own : deploymentId ∈ deployments)
    (old : ∀ record, previous = some record → record.deploymentId ∈ deployments) :
    (cutOver ctx clock deploymentId address previous targets tcpTargets).Uses
      (Concerns ctx deployments) := by
  have name := Set.mem_image_of_mem (containerName ctx) own
  refine uses_cutOver_of (fun _ => concerns_of_idle) (fun _ _ _ _ => own) name fun action => ?_
  exact uses_guarded_of (fun _ => concerns_of_idle) name own
    fun record same => Set.mem_image_of_mem _ (old record same)

/-- Retiring concerns the previous deployment. -/
theorem concerns_retire
    (old : ∀ record, previous = some record → record.deploymentId ∈ deployments) :
    (retire ctx clock previous).Uses (Concerns ctx deployments) := by
  cases previous with
  | none => trivial
  | some previous =>
      have member := old previous rfl
      have name := Set.mem_image_of_mem (containerName ctx) member
      obtain ⟨rest, shape, uses⟩ := uses_retirePrevious_rest ctx clock previous
        (Concerns ctx deployments) (fun _ => concerns_of_idle) name name
        fun commit same _ => (same ▸ member : commit.deploymentId ∈ deployments)
      rw [retire, shape]
      exact (uses_commitCatalog member).andThen uses

/-- Sweeping concerns the deployments that were left draining. -/
theorem Spared.sweep
    (spared : Spared hash scope ctx deployments start host)
    (draining : ∀ deployment record, start.slots deployment = some record →
      stuckDraining ctx ctx.serviceName record = true → deployment ∈ deployments)
    (runs : Script.Runs (hostWorld hash)
      (sweepStuckDrainingRecords ctx clock ctx.serviceName service) host result calls final) :
    Spared hash scope ctx deployments start final := by
  rcases runs.bind_cases with ⟨_, cut⟩ | ⟨outcome, _, _, middle, whole, continued, rfl⟩
  · exact spared.runs (uses_catalog trivial) cut
  · have listed := spared.runs (uses_catalog trivial) whole
    cases outcome with
    | error error =>
        cases continued
        exact listed
    | ok records =>
        obtain ⟨rfl, rfl⟩ := listed_of_runs whole
        refine spared.runs (.forEach fun record member => ?_) continued
        obtain ⟨latest, stuck⟩ := List.mem_filter.mp member
        obtain ⟨deployment, stands⟩ := AgentStore.mem_latestCatalog.mp latest
        obtain rfl := spared.grounded.proper.sound.catalog.keyed _ _ stands
        have inside : record.deploymentId ∈ deployments := by
          by_contra outside
          exact outside (draining _ record (spared.records _ outside ▸ stands) stuck)
        exact uses_sweepRecord (fun _ => concerns_of_idle) (Set.mem_image_of_mem _ inside)
          fun commit same _ => (same ▸ inside : commit.deploymentId ∈ deployments)

end Parts

/-- A run leaves alone every record and every container that does not belong to its
footprint, whichever of its calls fail and wherever it is cut off. -/
theorem deploy_spares_others
    (digest : String → String)
    (ctx : EndpointDeploymentContext)
    (clock : Clock)
    (grounded : start.api.Grounded hash scope)
    (runs : Script.Runs (hostWorld hash) (deployDynamicEndpoint ctx clock digest) start result
      calls final) :
    (∀ deployment ∉ footprint digest ctx clock start,
      final.slots deployment = start.slots deployment) ∧
    ∀ name ∉ containerName ctx '' footprint digest ctx clock start,
      final.containers[name]? = start.containers[name]? := by
  suffices spared : Spared hash scope ctx (footprint digest ctx clock start) start final from
    ⟨spared.records, spared.containers⟩
  have untouched : Spared hash scope ctx (footprint digest ctx clock start) start start :=
    ⟨grounded, fun _ _ => rfl, fun _ _ => rfl⟩
  rcases runs.andThen_cases with ⟨_, cut⟩ | ⟨_, _, refused⟩ |
    ⟨records, _, _, middle, listed, continued, rfl⟩
  · exact untouched.runs (uses_catalog trivial) cut
  · exact untouched.runs (uses_catalog trivial) refused
  · obtain ⟨rfl, rfl⟩ := listed_of_runs listed
    have own : deploymentIdOf digest ctx clock ∈ footprint digest ctx clock middle := Or.inl rfl
    have old : ∀ record, previousOf ctx.replicaId middle.api.store.latestCatalog = some record →
        record.deploymentId ∈ footprint digest ctx clock middle :=
      fun record found => Or.inr (Or.inl ⟨record, found, rfl⟩)
    refine Script.Triple.andThen (spared_of_uses (uses_leaseAddress fun _ => concerns_of_idle))
      (fun address => ?_) _ _ _ _ continued (fun _ _ => trivial) untouched
    refine .andThen (spared_of_uses (uses_stopPrevious fun record found =>
      Set.mem_image_of_mem _ (old record found))) fun _ => ?_
    refine .andThen (spared_of_uses (uses_command trivial)) fun _ => ?_
    refine .andThen (spared_of_uses (uses_command trivial)) fun _ => ?_
    refine .andThen (spared_of_uses (uses_stageEnvFile trivial)) fun _ => ?_
    split
    · exact spared_of_uses trivial
    · refine .andThen (spared_of_uses (concerns_cutOver own old)) fun _ => ?_
      refine .andThen (spared_of_uses (concerns_retire old)) fun _ => ?_
      intro host result calls final runs _ spared
      have draining : ∀ deployment record, middle.slots deployment = some record →
          stuckDraining ctx ctx.serviceName record = true →
          deployment ∈ footprint digest ctx clock middle :=
        fun deployment record stands stuck => Or.inr (Or.inr ⟨record, stands, stuck⟩)
      rcases runs.bind_cases with ⟨_, cut⟩ | ⟨_, _, _, _, whole, continued, rfl⟩
      · exact spared.sweep draining cut
      · cases continued
        exact spared.sweep draining whole

/-- The database of the sample project runs beside its web service. -/
def hostWithDatabase : Host :=
  { sampleHost with containers := sampleHost.containers.insert "p-db-d9" ⟨"sha256:db", [], true⟩ }

/-- A deployment of the web service that fails on the way leaves the database running. -/
theorem deploy_spares_database :
    ((deployDynamicEndpoint (sampleContext true) (sampleClock 1) sampleDigest).run
      (hostWorld sampleContentHash) (List.replicate 7 answered) hostWithDatabase
        ).state.containers["p-db-d9"]? = some ⟨"sha256:db", [], true⟩ := by
  have grounded : hostWithDatabase.api.Grounded sampleContentHash ⟨"p", 1⟩ := by
    refine ⟨AgentStore.proper_run _ _ _, ?_⟩
    rintro identity same
    rw [← Option.some.inj same]
    rfl
  refine ((deploy_spares_others sampleDigest (sampleContext true) (sampleClock 1) grounded
    (Script.runs_run _ _ _ _)).2 "p-db-d9" ?_).trans (by simp [hostWithDatabase])
  rintro ⟨deployment, _, same⟩
  have letters := congrArg String.toList same
  simp [containerName, dynamicContainerName, sampleContext] at letters

end Cli
end Jiji
