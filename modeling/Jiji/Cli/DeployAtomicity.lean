import Jiji.Cli.DeployStaging

/-!
# Failed deployments

A run that fails before the previous deployment is drained should leave no trace
of its candidate.  The calls of a run are guarded from the start of the container
to the activation of its routes, except for the commits: when a guarded call fails
the run removes the container, tombstones the record and releases the address.
When any other call fails after the address was leased, the lease stays.
-/

namespace Jiji
namespace Cli

open Network Agent Control Replication

/-- A call whose reply reports an error. -/
def failed (call : Call Request Reply) : Bool :=
  match call.reply with
  | .error _ => true
  | .ok _ => false

theorem failed_iff {call : Call Request Reply} : failed call = true ↔ Failing call.reply := by
  unfold failed Failing
  split <;> simp_all

/-- The calls whose failure a run makes up for: those before the lease of an address,
and those that the clean-up guards.  A request for an address is among them unless it
took effect and only its reply was lost. -/
def covered (call : Call Request Reply) : Bool :=
  match call.request with
  | .agent _ .catalogList => true
  | .agent _ (.allocateAddress _ _ _ _ _) =>
      match call.answer with
      | some (.ok _) => false
      | _ => true
  | .createAndStart _ | .waitUntilHealthy _ | .deployRoute _ | .verifyRouteAddress _ _
  | .deployTcpRoute _ | .verifyTcpRouteAddress _ _ => true
  | _ => false

/-- A request to commit the end of a deployment's service. -/
def drains : Request → Bool
  | .agent _ (.catalogCommit commit) => commit.state = .draining
  | _ => false

section Accounts

variable {hash : ContentHash} {scope : MembershipScope} {ctx : EndpointDeploymentContext}
variable {clock : Clock} {deploymentId : String} {known : Set CatalogRecord}
variable {start : Host} {previous : Option CatalogRecord}

/-- A failed run is rolled back and a covered call failed, or the lease stays and no
covered call failed. -/
def Explained
    (ctx : EndpointDeploymentContext)
    (deploymentId : String)
    (start : Host)
    (calls : List (Call Request Reply))
    (final : Host) : Prop :=
  (RolledBack ctx deploymentId start final ∧
      ∃ call ∈ calls, failed call = true ∧ covered call = true) ∨
    (final.api.leases.Leased deploymentId ∧
      ∀ call ∈ calls, failed call = true → covered call = false)

/-- Calls that went well change nothing about the explanation of a failure. -/
theorem Explained.append
    {before after : List (Call Request Reply)}
    {final : Host}
    (fine : ∀ call ∈ before, ¬Failing call.reply)
    (explained : Explained ctx deploymentId start after final) :
    Explained ctx deploymentId start (before ++ after) final := by
  refine explained.imp (And.imp_right ?_) (And.imp_right fun uncovered => ?_)
  · rintro ⟨call, member, covered⟩
    exact ⟨call, List.mem_append_right before member, covered⟩
  · rw [List.forall_mem_append]
    exact ⟨fun call member fails => absurd (failed_iff.mp fails) (fine call member),
      uncovered⟩

/-- The conditions on the calls of a run: they commit known records, drain nothing, and
at most one of them fails. -/
structure Orderly (known : Set CatalogRecord) (calls : List (Call Request Reply)) : Prop where
  commits : ∀ call ∈ calls, Commits known call
  undrained : ∀ call ∈ calls, drains call.request = false
  single : calls.countP failed ≤ 1

theorem Orderly.of_append
    {before after : List (Call Request Reply)}
    (orderly : Orderly known (before ++ after)) :
    Orderly known before ∧ Orderly known after := by
  obtain ⟨commits, undrained, single⟩ := orderly
  rw [List.forall_mem_append] at commits undrained
  rw [List.countP_append] at single
  exact ⟨⟨commits.1, undrained.1, by omega⟩, ⟨commits.2, undrained.2, by omega⟩⟩

/-- After a failure nothing else fails. -/
theorem Orderly.fine_after
    (orderly : Orderly known (before ++ after))
    (blamed : ∃ call ∈ before, Failing call.reply) :
    ∀ call ∈ after, ¬Failing call.reply := by
  obtain ⟨call, member, fails⟩ := blamed
  have counted : 0 < before.countP failed :=
    List.countP_pos_iff.mpr ⟨call, member, failed_iff.mpr fails⟩
  have single := orderly.single
  rw [List.countP_append] at single
  intro other later otherFails
  have more : 0 < after.countP failed :=
    List.countP_pos_iff.mpr ⟨other, later, failed_iff.mpr otherFails⟩
  omega

variable (hash scope ctx deploymentId known start previous) in
/-- A part of a run that keeps the host staged, or fails and is explained. -/
def Accountable {α : Type} (script : Remote (Except DeployError α)) : Prop :=
  ∀ host result calls final,
    Staged hash scope ctx deploymentId (stoppedName ctx previous) known start host →
    Script.Runs (hostWorld hash) script host (some result) calls final →
    Orderly known calls →
    match result with
    | .ok _ =>
        Staged hash scope ctx deploymentId (stoppedName ctx previous) known start final ∧
          ∀ call ∈ calls, ¬Failing call.reply
    | .error _ => Explained ctx deploymentId start calls final

theorem Accountable.andThen {α β : Type}
    {script : Remote (Except DeployError α)}
    {next : α → Remote (Except DeployError β)}
    (first : Accountable hash scope ctx deploymentId known start previous script)
    (rest : ∀ value,
      Accountable hash scope ctx deploymentId known start previous (next value)) :
    Accountable hash scope ctx deploymentId known start previous (script.andThen next) := by
  intro host result calls final staged runs orderly
  rcases runs.andThen_cases with ⟨cut, _⟩ | ⟨error, failed, whole⟩ |
    ⟨value, before, after, middle, whole, continued, rfl⟩
  · simp at cut
  · obtain rfl := Option.some.inj failed
    exact first host _ calls final staged whole orderly
  · obtain ⟨orderlyBefore, orderlyAfter⟩ := orderly.of_append
    obtain ⟨stillStaged, fine⟩ := first host _ before middle staged whole orderlyBefore
    have outcome := rest value middle result after final stillStaged continued orderlyAfter
    cases result with
    | error error => exact outcome.append fine
    | ok value =>
        rw [List.forall_mem_append]
        exact ⟨outcome.1, fine, outcome.2⟩

variable (hash scope ctx deploymentId known start previous) in
/-- A part of a run whose failure is explained. -/
def Explainable {α : Type} (script : Remote (Except DeployError α)) : Prop :=
  ∀ host error calls final,
    Staged hash scope ctx deploymentId (stoppedName ctx previous) known start host →
    Script.Runs (hostWorld hash) script host (some (.error error)) calls final →
    Orderly known calls → Explained ctx deploymentId start calls final

theorem Explainable.andThen {α β : Type}
    {script : Remote (Except DeployError α)}
    {next : α → Remote (Except DeployError β)}
    (first : Accountable hash scope ctx deploymentId known start previous script)
    (rest : ∀ value,
      Explainable hash scope ctx deploymentId known start previous (next value)) :
    Explainable hash scope ctx deploymentId known start previous (script.andThen next) := by
  intro host error calls final staged runs orderly
  rcases runs.andThen_error with whole | ⟨value, before, after, middle, whole, continued, rfl⟩
  · exact first host _ calls final staged whole orderly
  · obtain ⟨orderlyBefore, orderlyAfter⟩ := orderly.of_append
    obtain ⟨stillStaged, fine⟩ := first host _ before middle staged whole orderlyBefore
    exact (rest value middle error after final stillStaged continued orderlyAfter).append fine

theorem Accountable.done {α : Type} (result : Except DeployError α) :
    Accountable hash scope ctx deploymentId known start previous (.done result) := by
  intro host _ calls final staged runs _
  cases runs
  cases result with
  | error error => exact Or.inr ⟨staged.leased, by simp⟩
  | ok value => exact ⟨staged, by simp⟩

/-- Staging calls keep the host staged over a whole run. -/
theorem Staged.runs {α : Type}
    {stopped : Option String}
    {script : Remote α}
    {result : Option α}
    {calls : List (Call Request Reply)}
    (staged : Staged hash scope ctx deploymentId stopped known start host)
    (uses : script.Uses (Staging ctx deploymentId stopped))
    (runs : Script.Runs (hostWorld hash) script host result calls final)
    (commits : ∀ call ∈ calls, Commits known call) :
    Staged hash scope ctx deploymentId stopped known start final :=
  Script.Triple.of_uses uses
    (fun _ _ fate staging lawful staged => staged.settle fate staging lawful)
    host result calls final runs commits staged

/-- A part without clean-up leaves the lease behind when it fails. -/
theorem Accountable.unguarded {α : Type}
    {script : Remote (Except DeployError α)}
    (uses : script.Uses (Staging ctx deploymentId (stoppedName ctx previous)))
    (uncovered : script.Uses fun request => ∀ call, call.request = request → covered call = false)
    (strict : Script.Strict (hostWorld hash) Failing script) :
    Accountable hash scope ctx deploymentId known start previous script := by
  intro host result calls final staged runs orderly
  have stillStaged := staged.runs uses runs orderly.commits
  cases result with
  | error error =>
      exact Or.inr ⟨stillStaged.leased,
        fun call member _ => runs.requests_allowed uncovered call member call rfl⟩
  | ok value => exact ⟨stillStaged, strict _ _ _ _ runs⟩

/-- A guarded part is rolled back when it fails. -/
theorem Accountable.guarded
    {action : Remote (Except DeployError Unit)}
    {address : Ipv4Addr}
    (fresh : Fresh ctx deploymentId start)
    (keyed : ∀ deployment record, start.slots deployment = some record →
      record.deploymentId = deployment)
    (distinct : Set.InjOn hash.catalog known)
    (uses : action.Uses (Staging ctx deploymentId (stoppedName ctx previous)))
    (covered : action.Uses fun request => ∀ call, call.request = request → covered call = true)
    (strict : Script.Strict (hostWorld hash) Failing action)
    (blames : Script.Blames (hostWorld hash) Failing action) :
    Accountable hash scope ctx deploymentId known start previous
      (guarded ctx clock deploymentId address previous action) := by
  intro host result calls final staged runs orderly
  obtain ⟨outcome, before, after, middle, whole, continued, rfl⟩ := runs.bind_some
  have stillStaged := staged.runs uses whole orderly.of_append.1.commits
  cases outcome with
  | ok value =>
      cases continued
      rw [List.append_nil]
      exact ⟨stillStaged, strict _ _ _ _ whole⟩
  | error error =>
      have blamed := blames _ _ _ _ whole
      have fine := orderly.fine_after blamed
      have commits := orderly.of_append.2.commits
      obtain ⟨_, _, _, released, releasing, afterRelease, rfl⟩ := continued.bind_some
      obtain ⟨_, _, _, restored, restoring, atEnd, rfl⟩ := afterRelease.bind_some
      cases atEnd
      rw [List.append_nil] at fine
      rw [List.forall_mem_append] at commits
      obtain ⟨call, member, fails⟩ := blamed
      exact Or.inl ⟨stillStaged.rolledBack fresh keyed distinct releasing restoring fine
        commits.1, call, List.mem_append_left _ member, failed_iff.mpr fails,
        whole.requests_allowed covered call member call rfl⟩

/-- A command without clean-up leaves the lease behind when it fails. -/
theorem Accountable.command
    {request : Request}
    (staging : Staging ctx deploymentId (stoppedName ctx previous) request)
    (uncovered : ∀ call, call.request = request → covered call = false) :
    Accountable hash scope ctx deploymentId known start previous (command request) :=
  .unguarded ⟨staging, fun _ => trivial⟩ ⟨uncovered, fun _ => trivial⟩ (strict_command request)

theorem accountable_stopPrevious :
    Accountable hash scope ctx deploymentId known start previous
      (stopPrevious ctx previous) := by
  unfold stopPrevious
  split
  · rename_i record stopFirst
    refine .command ?_ fun call made => ?_
    · simp [Staging, stoppedName, stopFirst]
    · simp [covered, made]
  · exact .done _

theorem accountable_stageEnvFile :
    Accountable hash scope ctx deploymentId known start previous (stageEnvFile ctx) := by
  unfold stageEnvFile
  split
  · exact .done _
  · exact .command trivial fun call made => by simp [covered, made]

theorem accountable_commitCatalog
    {ports : List (BitVec 16)}
    {state : DeploymentState}
    {health : HealthState}
    (standing : state ≠ .tombstoned) :
    Accountable hash scope ctx deploymentId known start previous
      (commitCatalog ctx ctx.replicaId deploymentId address ports state health) := by
  refine .unguarded ?_ ?_ (strict_commitCatalog ctx ctx.replicaId deploymentId address ports
    state health)
  · rw [commitCatalog_eq_ask]
    exact ⟨⟨rfl, rfl, rfl, standing⟩, fun _ => trivial⟩
  · rw [commitCatalog_eq_ask]
    exact ⟨fun call made => by simp [covered, made, commitRequest], fun _ => trivial⟩

theorem accountable_cutOver
    {address : Ipv4Addr}
    {targets : List RouteTarget}
    {tcpTargets : List TcpRouteTarget}
    (fresh : Fresh ctx deploymentId start)
    (keyed : ∀ deployment record, start.slots deployment = some record →
      record.deploymentId = deployment)
    (distinct : Set.InjOn hash.catalog known) :
    Accountable hash scope ctx deploymentId known start previous
      (cutOver ctx clock deploymentId address previous targets tcpTargets) := by
  have guardedCommand : ∀ request : Request,
      Staging ctx deploymentId (stoppedName ctx previous) request →
      (∀ call, call.request = request → covered call = true) →
      Accountable hash scope ctx deploymentId known start previous
        (guarded ctx clock deploymentId address previous (command request)) :=
    fun request staging covered => .guarded fresh keyed distinct
      ⟨staging, fun _ => trivial⟩ ⟨covered, fun _ => trivial⟩ (strict_command request)
      (blames_command request)
  refine (accountable_commitCatalog (by simp)).andThen fun _ => ?_
  refine (guardedCommand (.createAndStart (buildDynamicRun ctx deploymentId address)) rfl
    fun call made => by simp [covered, made]).andThen fun _ => ?_
  refine (guardedCommand (.waitUntilHealthy _) trivial fun call made => by
    simp [covered, made]).andThen fun _ => ?_
  refine (accountable_commitCatalog (by simp)).andThen fun _ => ?_
  split
  · exact .done _
  · refine .guarded fresh keyed distinct (uses_activateRoutes ?_ ?_)
      (uses_activateRoutes ?_ ?_) (strict_activateRoutes _ _ _) (blames_activateRoutes _ _ _)
    · exact fun _ => ⟨trivial, trivial⟩
    · exact fun _ => ⟨trivial, trivial⟩
    · exact fun _ => ⟨fun call made => by simp [covered, made],
        fun call made => by simp [covered, made]⟩
    · exact fun _ => ⟨fun call made => by simp [covered, made],
        fun call made => by simp [covered, made]⟩

/-- Sweeping never fails, and retiring starts with a commit that drains. -/
theorem explainable_concludeDeployment {address : Ipv4Addr} :
    Explainable hash scope ctx deploymentId known start previous
      (concludeDeployment ctx clock deploymentId address previous) := by
  intro host error calls final _ runs orderly
  exfalso
  rcases runs.andThen_error with retiring | ⟨_, _, _, _, _, sweeping, _⟩
  · cases previous with
    | none => cases retiring
    | some record =>
        rcases retiring.andThen_error with committing | ⟨_, _, _, _, committing, _, rfl⟩
        all_goals
          rw [commitCatalog_eq_ask] at committing
          obtain ⟨fate, rfl, _⟩ := committing.ask_some
          have undrained := orderly.undrained _ List.mem_cons_self
          rw [World.settle_request] at undrained
          simp [drains, commitRequest] at undrained
  · obtain ⟨_, _, _, _, _, atEnd, _⟩ := sweeping.bind_some
    cases atEnd

end Accounts

section Result

variable {hash : ContentHash} {scope : MembershipScope} {ctx : EndpointDeploymentContext}
variable {clock : Clock} {deploymentId : String} {known : Set CatalogRecord}
variable {start final : Host} {calls : List (Call Request Reply)} {error : DeployError}

/-- A run that changed neither containers nor catalog and holds no lease is rolled
back. -/
theorem Fresh.rolledBack
    (fresh : Fresh ctx deploymentId start)
    (containers : final.containers = start.containers)
    (store : final.api.store = start.api.store)
    (unleased : final.api.leases.addressLease deploymentId = none) :
    RolledBack ctx deploymentId start final where
  container := containers ▸ fresh.container
  lease := by
    rintro ⟨lease, stands, _⟩
    simp [unleased] at stands
  record := fun record latest same =>
    absurd same (fresh.record record (store ▸ latest))
  previous := fun record latest _ _ =>
    ⟨store ▸ latest, fun running => containers ▸ running⟩

/-- Listing the catalog changes nothing. -/
theorem settle_catalogList (host : Host) (fate : Fate Conditions DeployError) :
    ((hostWorld hash).settle host (.agent none .catalogList) fate).2 = host := by
  cases fate <;> rfl

/-- A run that fails to list the catalog is rolled back. -/
theorem explained_catalog
    (fresh : Fresh ctx deploymentId start)
    (runs : Script.Runs (hostWorld hash) catalog start (some (.error error)) calls final) :
    Explained ctx deploymentId start calls final := by
  rw [catalog_eq_ask] at runs
  obtain ⟨fate, rfl, rfl, decoded⟩ := runs.ask_some
  rw [settle_catalogList]
  refine Or.inl ⟨fresh.rolledBack rfl rfl fresh.lease, _, List.mem_singleton_self _, ?_, ?_⟩
  · cases fate with
    | answered conditions =>
        simp [World.settle, hostWorld, Host.perform, Host.askAgent, AgentApi.handleIdempotent,
          AgentApi.handle, replyOf, decodeCatalog] at decoded
    | lost => rfl
    | unreached => rfl
  · simp [covered, World.settle_request]

/-- The host after an address was leased is staged. -/
theorem Fresh.staged
    {stopped : Option String}
    {result : ApiResult}
    (fresh : Fresh ctx deploymentId start)
    (grounded : start.api.Grounded hash scope)
    (logged : ∀ record ∈ start.api.store.catalogOperations, record ∈ known)
    (leased : leases.Leased deploymentId) :
    Staged hash scope ctx deploymentId stopped known start
      { start with api := { start.api with
        leases := leases
        responses := start.api.responses.insert (leaseKey deploymentId) result } } where
  identity := rfl
  grounded := ⟨grounded.proper, grounded.inScope⟩
  logged := logged
  others := fun _ _ => rfl
  yields := fun _ _ current stands =>
    absurd (grounded.proper.sound.catalog.keyed _ _ stands)
      (fresh.record current (AgentStore.mem_latestCatalog.mpr ⟨_, stands⟩))
  untombstoned := by
    simp [Std.ExtTreeMap.getElem?_insert, leaseKey_ne_catalogKey, fresh.catalogResponse]
  unreleased := by
    simp [Std.ExtTreeMap.getElem?_insert, leaseKey_ne_releaseKey, fresh.releaseResponse]
  containers := fun _ _ _ => rfl
  leased := leased

/-- A run that leases an address stages the host. -/
theorem staged_of_leaseAddress
    {stopped : Option String}
    {address : Ipv4Addr}
    (fresh : Fresh ctx deploymentId start)
    (grounded : start.api.Grounded hash scope)
    (logged : ∀ record ∈ start.api.store.catalogOperations, record ∈ known)
    (runs : Script.Runs (hostWorld hash) (leaseAddress ctx clock deploymentId) start
      (some (.ok address)) calls final) :
    Staged hash scope ctx deploymentId stopped known start final := by
  have fine := strict_leaseAddress ctx clock deploymentId _ _ _ _ runs
  rw [leaseAddress_eq_ask] at runs
  obtain ⟨_, _, performed, _⟩ := performed_of_ask runs fine
  obtain ⟨⟨result, leases, rfl⟩, ⟨_, _, leased⟩ | ⟨_, refused, _⟩⟩ :=
    perform_allocateAddress_cases fresh.leaseResponse fresh.lease performed
  · exact fresh.staged grounded logged leased
  · simp at refused

/-- A run that fails to lease an address is rolled back, unless the lease took effect. -/
theorem explained_leaseAddress
    (fresh : Fresh ctx deploymentId start)
    (runs : Script.Runs (hostWorld hash) (leaseAddress ctx clock deploymentId) start
      (some (.error error)) calls final) :
    Explained ctx deploymentId start calls final := by
  rw [leaseAddress_eq_ask] at runs
  obtain ⟨fate, rfl, rfl, decoded⟩ := runs.ask_some
  have tried : ∀ conditions reply next,
      Host.perform hash conditions start (leaseRequest ctx clock deploymentId) =
        (reply, next) →
      (∃ response, reply = .ok response ∧ next.api.leases.Leased deploymentId) ∨
        ((∃ error, reply = .error error) ∧ RolledBack ctx deploymentId start next) := by
    intro conditions reply next performed
    obtain ⟨⟨result, leases, rfl⟩, leased | ⟨error, refused, unleased⟩⟩ :=
      perform_allocateAddress_cases fresh.leaseResponse fresh.lease performed
    · exact Or.inl leased
    · exact Or.inr ⟨⟨error, refused⟩, fresh.rolledBack rfl rfl unleased⟩
  cases fate with
  | unreached reason =>
      refine Or.inl ⟨fresh.rolledBack rfl rfl fresh.lease, _, List.mem_singleton_self _, rfl, ?_⟩
      simp [covered, World.settle, leaseRequest]
  | answered conditions =>
      rcases performed : Host.perform hash conditions start
        (leaseRequest ctx clock deploymentId) with ⟨reply, next⟩
      simp only [World.settle, hostWorld, performed]
      rcases tried conditions reply next performed with
        ⟨response, rfl, leased⟩ | ⟨⟨error, rfl⟩, rolledBack⟩
      · exact Or.inr ⟨leased, by simp [failed]⟩
      · refine Or.inl ⟨rolledBack, _, List.mem_singleton_self _, rfl, ?_⟩
        simp [covered, leaseRequest]
  | lost conditions reason =>
      rcases performed : Host.perform hash conditions start
        (leaseRequest ctx clock deploymentId) with ⟨reply, next⟩
      simp only [World.settle, hostWorld, performed]
      rcases tried conditions reply next performed with
        ⟨response, rfl, leased⟩ | ⟨⟨error, rfl⟩, rolledBack⟩
      · exact Or.inr ⟨leased, by simp [covered, leaseRequest]⟩
      · refine Or.inl ⟨rolledBack, _, List.mem_singleton_self _, rfl, ?_⟩
        simp [covered, leaseRequest]

/-- Every failed run is explained. -/
theorem explained_deployDynamicEndpoint
    {digest : String → String}
    (fresh : Fresh ctx (deploymentIdOf digest ctx clock) start)
    (grounded : start.api.Grounded hash scope)
    (logged : ∀ record ∈ start.api.store.catalogOperations, record ∈ known)
    (distinct : Set.InjOn hash.catalog known)
    (runs : Script.Runs (hostWorld hash) (deployDynamicEndpoint ctx clock digest) start
      (some (.error error)) calls final)
    (orderly : Orderly known calls) :
    Explained ctx (deploymentIdOf digest ctx clock) start calls final := by
  have keyed : ∀ deployment record, start.slots deployment = some record →
      record.deploymentId = deployment := grounded.proper.sound.catalog.keyed
  rcases runs.andThen_error with listing | ⟨records, _, _, listed, listing, rest, rfl⟩
  · exact explained_catalog fresh listing
  · have listedFine := strict_catalog _ _ _ _ listing
    rw [catalog_eq_ask] at listing
    obtain ⟨fate, _, rfl, _⟩ := listing.ask_some
    rw [settle_catalogList] at rest
    refine Explained.append listedFine ?_
    rcases rest.andThen_error with leasing | ⟨address, _, _, leased, leasing, continued, rfl⟩
    · exact explained_leaseAddress fresh leasing
    · have leasedFine := strict_leaseAddress _ _ _ _ _ _ _ leasing
      have staged : Staged hash scope ctx (deploymentIdOf digest ctx clock)
          (stoppedName ctx (previousOf ctx.replicaId records)) known start leased :=
        staged_of_leaseAddress fresh grounded logged leasing
      refine Explained.append leasedFine ?_
      refine Explainable.andThen accountable_stopPrevious (fun _ => ?_) _ _ _ _ staged
        continued orderly.of_append.2.of_append.2
      refine .andThen (.command trivial fun call made => by simp [covered, made])
        fun _ => ?_
      refine .andThen (.command trivial fun call made => by simp [covered, made])
        fun _ => ?_
      refine .andThen accountable_stageEnvFile fun _ => ?_
      split
      · exact fun _ _ _ _ staged runs => Accountable.done _ _ _ _ _ staged runs
      · exact .andThen (accountable_cutOver fresh keyed distinct)
          fun _ => explainable_concludeDeployment

/-- A run of which one call fails before the previous deployment is drained is rolled
back exactly when the failed call is covered. -/
theorem deployDynamicEndpoint_rolledBack_iff
    (hash : ContentHash)
    (scope : MembershipScope)
    (ctx : EndpointDeploymentContext)
    (clock : Clock)
    (digest : String → String)
    (host : Host)
    (fates : List (Fate Conditions DeployError))
    (execution : Execution Request Reply Host (Except DeployError Deployed))
    (ran : (deployDynamicEndpoint ctx clock digest).run (hostWorld hash) fates host =
      execution)
    (stored : ∃ calls, host.api.store = AgentStore.run hash scope .empty calls)
    (inScope : ∀ identity, host.api.catalogIdentity = some identity →
      identity.scope = scope)
    (fresh : Fresh ctx (deploymentIdOf digest ctx clock) host)
    (failure : ∃ error, execution.result = some (.error error))
    (undrained : ∀ call ∈ execution.calls, drains call.request = false)
    (single : execution.calls.countP failed ≤ 1)
    (distinct : Set.InjOn hash.catalog
      { record | record ∈ recordsOf host execution.calls }) :
    RolledBack ctx (deploymentIdOf digest ctx clock) host execution.state ↔
      ∃ call ∈ execution.calls, failed call = true ∧ covered call = true := by
  obtain ⟨error, failure⟩ := failure
  have runs := Script.runs_run (hostWorld hash) (deployDynamicEndpoint ctx clock digest) fates
    host
  rw [ran, failure] at runs
  have grounded : host.api.Grounded hash scope := by
    obtain ⟨calls, same⟩ := stored
    exact ⟨same ▸ AgentStore.proper_run hash scope calls, inScope⟩
  have orderly : Orderly { record | record ∈ recordsOf host execution.calls }
      execution.calls :=
    ⟨fun _ => commits_recordsOf, undrained, single⟩
  rcases explained_deployDynamicEndpoint fresh grounded
      (fun _ => List.mem_append_left _) distinct runs orderly with
    ⟨rolledBack, guarded⟩ | ⟨leased, uncovered⟩
  · exact iff_of_true rolledBack guarded
  · refine iff_of_false (fun rolledBack => rolledBack.lease leased) ?_
    rintro ⟨call, member, fails, guarded⟩
    simp [uncovered call member fails] at guarded

/-- A run of a fresh project whose candidate does not become healthy. -/
def unhealthyRun : Execution Request Reply Host (Except DeployError Deployed) :=
  (deployDynamicEndpoint (sampleContext false) (sampleClock 1) sampleDigest).run
    (hostWorld sampleContentHash)
    (List.replicate 7 answered ++ .unreached (.failed "unhealthy") :: List.replicate 3 answered)
    sampleHost

theorem sampleHost_fresh (stopFirst : Bool) :
    Fresh (sampleContext stopFirst)
      (deploymentIdOf sampleDigest (sampleContext stopFirst) (sampleClock 1)) sampleHost where
  container := by simp [sampleHost]
  lease := by simp [sampleHost, LeaseTable.addressLease, LeaseTable.empty]
  record := by
    have none : sampleHost.api.store.latestCatalog = [] := by decide
    simp [none]
  leaseResponse := by simp [sampleHost]
  releaseResponse := by simp [sampleHost]
  catalogResponse := by simp [sampleHost]

theorem unhealthyRun_rolledBack :
    unhealthyRun.result = some (.error (.failed "unhealthy")) ∧
      RolledBack (sampleContext false) (sampleDeploymentId 1) sampleHost
        unhealthyRun.state := by
  have failure : unhealthyRun.result = some (.error (.failed "unhealthy")) := by decide
  refine ⟨failure, (deployDynamicEndpoint_rolledBack_iff sampleContentHash ⟨"p", 1⟩
    (sampleContext false) (sampleClock 1) sampleDigest sampleHost _ unhealthyRun rfl ⟨_, rfl⟩ ?_
    (sampleHost_fresh false) ⟨_, failure⟩ ?_ ?_ ?_).mpr ?_⟩
  · intro identity same
    rw [← Option.some.inj same]
    rfl
  · decide
  · decide
  · have committed : ∀ record ∈ recordsOf sampleHost unhealthyRun.calls,
        record ∈ sampleDigests.map Prod.fst := by decide
    exact sampleContentHash_injOn.mono committed
  · decide

/-- A run of a fresh project whose image cannot be pulled. -/
def unpulledRun : Execution Request Reply Host (Except DeployError Deployed) :=
  (deployDynamicEndpoint (sampleContext false) (sampleClock 1) sampleDigest).run
    (hostWorld sampleContentHash)
    [answered, answered, .unreached (.failed "manifest unknown")] sampleHost

/-- A run that fails to pull the image returns the error and leaves the lease of its
candidate active. -/
theorem unpulledRun_leaks_lease :
    unpulledRun.result = some (.error (.failed "manifest unknown")) ∧
      unpulledRun.calls.countP failed = 1 ∧
      (unpulledRun.state.api.leases.addressLease (sampleDeploymentId 1)).map
        AddressLease.state = some .active ∧
      ¬RolledBack (sampleContext false) (sampleDeploymentId 1) sampleHost
        unpulledRun.state := by
  have leased : (unpulledRun.state.api.leases.addressLease (sampleDeploymentId 1)).map
      AddressLease.state = some .active := by decide
  exact ⟨by decide, by decide, leased,
    fun rolledBack => rolledBack.lease (Option.map_eq_some_iff.mp leased)⟩

end Result

end Cli
end Jiji
