import Jiji.Cli.DeployInvariant

/-!
# The phases of a deployment

A run first brings up its candidate, and its commits are about the candidate only.
It then drains the previous deployment, and from there on buries deployments that
are no longer live: the previous one, and those that earlier runs left draining.
-/

namespace Jiji
namespace Cli

open Network Agent Control Replication

section Advance

variable (hash : ContentHash) (scope : MembershipScope)
variable (members : Ledger String MembershipRecord) (known : Set CatalogRecord)
variable (ids : Set String) (replicaId deploymentId : String)
variable (states : Set DeploymentState)

/-- The host while a run brings up its candidate: only the candidate's own record was
changed, and only by commits of some states. -/
structure Underway (start host : Host) : Prop where
  tended : Tended hash scope replicaId members known ids host
  others : ∀ deployment, deployment ≠ deploymentId →
    host.slots deployment = start.slots deployment
  own : ∀ current, host.slots deploymentId = some current → current.replicaId = replicaId
  unanswered : ∀ state, state ∉ states →
    host.api.responses[catalogKey deploymentId state]? = none

/-- The calls by which a run brings up its candidate. -/
def Advancing : Request → Prop
  | .agent (some key) (.catalogCommit commit) =>
      commit.deploymentId = deploymentId ∧ commit.replicaId = replicaId ∧
        key = catalogKey deploymentId commit.state ∧ commit.state ∈ states
  | request => Plain request

variable {hash scope members known ids replicaId deploymentId states} {start host : Host}

theorem Advancing.of_plain {request : Request} (plain : Plain request) :
    Advancing replicaId deploymentId states request := by
  unfold Advancing
  split
  · exact plain.elim
  · exact plain

/-- Every such call keeps the run underway. -/
theorem Underway.settle
    (underway : Underway hash scope members known ids replicaId deploymentId states start host)
    (distinct : Set.InjOn hash.catalog known)
    (member : deploymentId ∈ ids)
    (undrained : DeploymentState.draining ∉ states)
    (fate : Fate Conditions DeployError)
    (advancing : Advancing replicaId deploymentId states request)
    (commits : Commits known ((hostWorld hash).settle host request fate).1) :
    Underway hash scope members known ids replicaId deploymentId states start
      ((hostWorld hash).settle host request fate).2 := by
  unfold Advancing at advancing
  split at advancing
  · rename_i key commit
    obtain ⟨rfl, replica, rfl, state⟩ := advancing
    obtain ⟨tended, touches, responses⟩ := underway.tended.settle_commit commit member
      (fun _ => underway.unanswered _ undrained)
      (fun draining => absurd (draining ▸ state) undrained) distinct rfl commits
    refine ⟨tended, fun deployment different =>
      (touches.others deployment different).trans (underway.others deployment different),
      fun current stands => ?_, fun other absent => ?_⟩
    · rcases touches.own current stands with before | ⟨_, sameReplica⟩
      · exact underway.own current before
      · exact sameReplica.trans replica
    · refine (responses _ other (Or.inr ?_)).trans (underway.unanswered other absent)
      rintro rfl
      exact absent state
  · obtain ⟨store, identity, responses⟩ := settle_plain advancing fate
    refine ⟨underway.tended.congr store identity responses, ?_, ?_, ?_⟩
    · simpa only [Host.slots, store] using underway.others
    · simpa only [Host.slots, store] using underway.own
    · simpa only [responses] using underway.unanswered

/-- A run of such calls stays underway. -/
theorem Underway.runs {α : Type}
    {script : Remote α}
    {result : Option α}
    {final : Host}
    (underway : Underway hash scope members known ids replicaId deploymentId states start host)
    (distinct : Set.InjOn hash.catalog known)
    (member : deploymentId ∈ ids)
    (undrained : DeploymentState.draining ∉ states)
    (uses : script.Uses (Advancing replicaId deploymentId states))
    (runs : Script.Runs (hostWorld hash) script host result calls final)
    (commits : ∀ call ∈ calls, Commits known call) :
    Underway hash scope members known ids replicaId deploymentId states start final :=
  Script.Triple.of_uses uses
    (fun _ _ fate advancing lawful underway =>
      underway.settle distinct member undrained fate advancing lawful)
    host result calls final runs commits underway

/-- A run of a sequence stays underway and does not succeed, or it stays underway over
the first part and continues. -/
theorem Underway.andThen_cases {α β : Type}
    {script : Remote (Except DeployError α)}
    {next : α → Remote (Except DeployError β)}
    {result : Option (Except DeployError β)}
    {calls : List (Call Request Reply)}
    {final : Host}
    (underway : Underway hash scope members known ids replicaId deploymentId states start host)
    (distinct : Set.InjOn hash.catalog known)
    (member : deploymentId ∈ ids)
    (undrained : DeploymentState.draining ∉ states)
    (uses : script.Uses (Advancing replicaId deploymentId states))
    (runs : Script.Runs (hostWorld hash) (script.andThen next) host result calls final)
    (commits : ∀ call ∈ calls, Commits known call) :
    (Underway hash scope members known ids replicaId deploymentId states start final ∧
        ∀ value, result ≠ some (.ok value)) ∨
      ∃ value before after middle,
        Underway hash scope members known ids replicaId deploymentId states start middle ∧
        Script.Runs (hostWorld hash) script host (some (.ok value)) before middle ∧
        Script.Runs (hostWorld hash) (next value) middle result after final ∧
        (∀ call ∈ before, Commits known call) ∧ ∀ call ∈ after, Commits known call := by
  rcases runs.andThen_cases with ⟨rfl, cut⟩ | ⟨error, rfl, refused⟩ |
    ⟨value, before, after, middle, whole, continued, rfl⟩
  · exact Or.inl ⟨underway.runs distinct member undrained uses cut commits, by simp⟩
  · exact Or.inl ⟨underway.runs distinct member undrained uses refused commits, by simp⟩
  · rw [List.forall_mem_append] at commits
    exact Or.inr ⟨value, before, after, middle,
      underway.runs distinct member undrained uses whole commits.1, whole, continued, commits⟩

theorem Underway.mono
    (underway : Underway hash scope members known ids replicaId deploymentId states start host)
    (sub : states ⊆ larger) :
    Underway hash scope members known ids replicaId deploymentId larger start host :=
  { underway with
    unanswered := fun state absent => underway.unanswered state fun present =>
      absent (sub present) }

section Uses

variable {ctx : EndpointDeploymentContext} {clock : Clock} {address : Ipv4Addr}
variable {previous : Option CatalogRecord} {allowed : Request → Prop}

theorem uses_commitCatalog
    (fine : allowed (commitRequest ctx replicaId deploymentId address ports state health)) :
    (commitCatalog ctx replicaId deploymentId address ports state health).Uses allowed := by
  rw [commitCatalog_eq_ask]
  exact ⟨fine, fun _ => trivial⟩

theorem uses_releaseAddress {otherId : String} {timestamp : ℕ}
    (plain : ∀ request, Plain request → Idle request → allowed request) :
    (releaseAddress otherId timestamp).Uses allowed :=
  ⟨plain _ (fun _ _ => releaseKey_ne_catalogKey) trivial, fun _ => trivial⟩

theorem uses_leaseAddress
    (plain : ∀ request, Plain request → Idle request → allowed request) :
    (leaseAddress ctx clock deploymentId).Uses allowed := by
  rw [leaseAddress_eq_ask]
  exact ⟨plain _ (fun _ _ => leaseKey_ne_catalogKey) trivial, fun _ => trivial⟩

theorem uses_stopPrevious
    (stops : ∀ record, previous = some record →
      allowed (.stop (containerName ctx record.deploymentId))) :
    (stopPrevious ctx previous).Uses allowed := by
  unfold stopPrevious
  split
  · exact uses_command (stops _ rfl)
  · trivial

theorem uses_stageEnvFile (fine : allowed .stageEnvFile) : (stageEnvFile ctx).Uses allowed := by
  unfold stageEnvFile
  split
  · trivial
  · exact uses_command fine

/-- A guarded part makes the calls of its action, and cleans up after the candidate. -/
theorem uses_guarded_of
    {action : Remote (Except DeployError Unit)}
    (plain : ∀ request, Plain request → Idle request → allowed request)
    (removes : allowed (.removeIfPresent (containerName ctx deploymentId)))
    (buries : allowed (commitRequest ctx ctx.replicaId deploymentId address [] .tombstoned
      .unhealthy))
    (restarts : ∀ record, previous = some record →
      allowed (.start (containerName ctx record.deploymentId)))
    (uses : action.Uses allowed) :
    (guarded ctx clock deploymentId address previous action).Uses allowed := by
  refine uses.bind fun outcome => ?_
  cases outcome with
  | ok value => trivial
  | error error =>
      refine Script.Uses.bind ?_ fun _ => Script.Uses.bind ?_ fun _ => trivial
      · refine Script.Uses.bind (uses_command removes) fun _ => ?_
        refine Script.Uses.bind (uses_commitCatalog buries) fun _ => ?_
        exact Script.Uses.bind (uses_releaseAddress plain) fun _ => trivial
      · unfold restoreStopFirst
        split
        · exact Script.Uses.bind (uses_command (restarts _ rfl)) fun _ => trivial
        · trivial

/-- A guarded part advances when its action does: the clean-up commits a tombstone. -/
theorem uses_guarded
    {action : Remote (Except DeployError Unit)}
    (present : DeploymentState.tombstoned ∈ states)
    (uses : action.Uses (Advancing ctx.replicaId deploymentId states)) :
    (guarded ctx clock deploymentId address previous action).Uses
      (Advancing ctx.replicaId deploymentId states) :=
  uses_guarded_of (fun _ plain _ => .of_plain plain) (.of_plain trivial)
    ⟨rfl, rfl, rfl, present⟩ (fun _ _ => .of_plain trivial) uses

end Uses

/-- The states that a run commits for its own candidate before it serves. -/
def beforeServing : Set DeploymentState := {.candidate, .tombstoned}

/-- The states that a run commits for its own candidate. -/
def ofCandidate : Set DeploymentState := {.candidate, .active, .tombstoned}

theorem beforeServing_subset : beforeServing ⊆ ofCandidate := by
  simp [beforeServing, ofCandidate, Set.insert_subset_iff]

section CutOver

variable {ctx : EndpointDeploymentContext} {clock : Clock} {address : Ipv4Addr}
variable {previous : Option CatalogRecord} {targets : List RouteTarget}
variable {tcpTargets : List TcpRouteTarget}

/-- The cutover commits states of the candidate, and does the rest under guard. -/
theorem uses_cutOver_of {allowed : Request → Prop}
    (plain : ∀ request, Plain request → Idle request → allowed request)
    (commits : ∀ ports state health, state ∈ ofCandidate →
      allowed (commitRequest ctx ctx.replicaId deploymentId address ports state health))
    (creates : allowed (.createAndStart (buildDynamicRun ctx deploymentId address)))
    (guards : ∀ action : Remote (Except DeployError Unit), action.Uses allowed →
      (guarded ctx clock deploymentId address previous action).Uses allowed) :
    (cutOver ctx clock deploymentId address previous targets tcpTargets).Uses allowed := by
  refine Script.Uses.andThen (uses_commitCatalog (commits _ _ _ (by simp [ofCandidate])))
    fun _ => ?_
  refine Script.Uses.andThen (guards _ (uses_command creates)) fun _ => ?_
  refine Script.Uses.andThen (guards _ (uses_command (plain _ trivial trivial))) fun _ => ?_
  refine Script.Uses.andThen (uses_commitCatalog (commits _ _ _ (by simp [ofCandidate])))
    fun _ => ?_
  split
  · trivial
  · exact guards _ (uses_activateRoutes
      (fun _ => ⟨plain _ trivial trivial, plain _ trivial trivial⟩)
      (fun _ => ⟨plain _ trivial trivial, plain _ trivial trivial⟩))

/-- The cutover only advances the candidate. -/
theorem uses_cutOver :
    (cutOver ctx clock deploymentId address previous targets tcpTargets).Uses
      (Advancing ctx.replicaId deploymentId ofCandidate) :=
  uses_cutOver_of (fun _ plain _ => .of_plain plain)
    (fun _ _ _ present => ⟨rfl, rfl, rfl, present⟩) (.of_plain trivial)
    fun _ => uses_guarded (by simp [ofCandidate])

/-- A confirmed commit of a state that was not committed before takes effect. -/
theorem Underway.commit_wins
    {fate : Fate Conditions DeployError}
    {response : Response}
    (underway : Underway hash scope members known ids replicaId deploymentId states start host)
    (commit : CatalogCommit)
    (distinct : Set.InjOn hash.catalog known)
    (deployment : commit.deploymentId = deploymentId)
    (replica : commit.replicaId = replicaId)
    (absent : commit.state ∉ states)
    (commits : Commits known ((hostWorld hash).settle host (.agent
      (some (catalogKey deploymentId commit.state)) (.catalogCommit commit)) fate).1)
    (replied : ((hostWorld hash).settle host (.agent
      (some (catalogKey deploymentId commit.state)) (.catalogCommit commit)) fate).1.reply =
        .ok response) :
    ∃ current, ((hostWorld hash).settle host (.agent
      (some (catalogKey deploymentId commit.state)) (.catalogCommit commit)) fate).2.slots
        deploymentId = some current ∧ current.state = commit.state := by
  subst deployment
  obtain ⟨answered, conditions, performed⟩ := performed_of_ok replied
  rcases perform_catalogCommit_cases performed with
    ⟨_, cached, _⟩ | ⟨_, _, refused, _⟩ |
      ⟨_, identity, record, store, configured, committed, confirmed, next⟩
  · simp [underway.unanswered _ absent] at cached
  · simp at refused
  · have recorded : record ∈ known := commits record (confirmed ▸ answered)
    have wins := (underway.tended.grounded.proper_of_identity configured).catalogCommit_wins
      (fun current stands => ⟨(underway.own current stands).trans replica.symm,
        fun owner owned => underway.tended.epochs _ current stands
          (underway.own current stands) identity configured owner owned⟩)
      (fun logged present same =>
        distinct (underway.tended.logged logged present) recorded same) committed
    obtain ⟨_, _, _, _, _, _, written, _⟩ :=
      AgentStore.applyCatalog_of_catalogCommit committed
    refine ⟨record, ?_, by rw [written]; rfl⟩
    simp only [next, Host.slots, wins, Function.update_self]

/-- After a successful cutover the candidate is live. -/
theorem Underway.live_of_cutOver
    {calls : List (Call Request Reply)}
    {final : Host}
    (underway : Underway hash scope members known ids ctx.replicaId deploymentId beforeServing
      start host)
    (distinct : Set.InjOn hash.catalog known)
    (member : deploymentId ∈ ids)
    (runs : Script.Runs (hostWorld hash)
      (cutOver ctx clock deploymentId address previous targets tcpTargets) host
      (some (.ok ())) calls final)
    (commits : ∀ call ∈ calls, Commits known call) :
    ∃ current, final.slots deploymentId = some current ∧ Live current := by
  have tombstoned : DeploymentState.tombstoned ∈ beforeServing := by simp [beforeServing]
  have undrained : DeploymentState.draining ∉ beforeServing := by simp [beforeServing]
  obtain ⟨_, _, _, staged, staging, afterStaging, rfl⟩ := runs.andThen_ok
  obtain ⟨_, _, _, started, starting, afterStart, rfl⟩ := afterStaging.andThen_ok
  obtain ⟨_, _, _, healthy, checking, afterCheck, rfl⟩ := afterStart.andThen_ok
  obtain ⟨_, _, _, serving, activating, afterServing, rfl⟩ := afterCheck.andThen_ok
  simp only [List.forall_mem_append] at commits
  have ready : Underway hash scope members known ids ctx.replicaId deploymentId beforeServing
      start healthy := by
    have afterCommit := underway.runs distinct member undrained
      (uses_commitCatalog ⟨rfl, rfl, rfl, by simp [beforeServing]⟩) staging commits.1
    have afterCreation := afterCommit.runs distinct member undrained
      (by exact uses_guarded tombstoned (uses_command (.of_plain trivial))) starting
      commits.2.1
    exact afterCreation.runs distinct member undrained
      (by exact uses_guarded tombstoned (uses_command (.of_plain trivial))) checking
      commits.2.2.1
  have settled : final.slots = serving.slots := by
    split at afterServing
    · cases afterServing
      rfl
    · obtain ⟨outcome, _, _, _, action, atEnd, rfl⟩ := afterServing.bind_some
      cases outcome with
      | error error =>
          obtain ⟨_, _, _, _, _, afterRelease, _⟩ := atEnd.bind_some
          obtain ⟨_, _, _, _, _, nowhere, _⟩ := afterRelease.bind_some
          cases nowhere
      | ok value =>
          cases atEnd
          exact congrArg (fun store => slotsOf store.catalog.winners)
            (store_of_plain_runs action (uses_activateRoutes
              (fun _ => ⟨trivial, trivial⟩) (fun _ => ⟨trivial, trivial⟩)))
  rw [commitCatalog_eq_ask] at activating
  obtain ⟨fate, rfl, rfl, decoded⟩ := activating.ask_some
  obtain ⟨current, stands, state⟩ := ready.commit_wins
    ⟨ctx.serviceName, ctx.replicaId, deploymentId, address.display, _, ctx.image, .active,
      .healthy⟩ distinct rfl rfl (by simp [beforeServing]) (commits.2.2.2.1 _ (List.mem_singleton_self _))
    (ok_of_decodeCommit decoded.symm)
  exact ⟨current, settled ▸ stands, Or.inr state⟩

end CutOver

end Advance

section Retirement

variable (hash : ContentHash) (scope : MembershipScope)
variable (members : Ledger String MembershipRecord) (known : Set CatalogRecord)
variable (ids targets : Set String) (replicaId : String)

/-- The host while a run retires deployments that are no longer live: the live records
are those of a fixed host. -/
structure Retiring (base host : Host) : Prop where
  tended : Tended hash scope replicaId members known ids host
  live : ∀ deployment current, Live current →
    (host.slots deployment = some current ↔ base.slots deployment = some current)
  quiet : ∀ deployment ∈ targets, ∀ current, host.slots deployment = some current →
    ¬Live current

/-- The calls by which a run retires some deployments. -/
def Burying : Request → Prop
  | .agent (some key) (.catalogCommit commit) =>
      commit.deploymentId ∈ targets ∧ key = catalogKey commit.deploymentId commit.state ∧
        commit.state = .tombstoned
  | request => Plain request

variable {hash scope members known ids targets replicaId} {base host final : Host}
variable {calls : List (Call Request Reply)}

theorem Burying.of_plain {request : Request} (plain : Plain request) :
    Burying targets request := by
  unfold Burying
  split
  · exact plain.elim
  · exact plain

/-- Every such call keeps the live records. -/
theorem Retiring.settle
    (retiring : Retiring hash scope members known ids targets replicaId base host)
    (distinct : Set.InjOn hash.catalog known)
    (sub : targets ⊆ ids)
    (fate : Fate Conditions DeployError)
    (burying : Burying targets request)
    (commits : Commits known ((hostWorld hash).settle host request fate).1) :
    Retiring hash scope members known ids targets replicaId base
      ((hostWorld hash).settle host request fate).2 := by
  unfold Burying at burying
  split at burying
  · rename_i key commit
    obtain ⟨target, rfl, tombstoned⟩ := burying
    rcases settled : (hostWorld hash).settle host _ fate with ⟨made, next⟩
    rw [settled] at commits
    obtain ⟨tended, touches, _⟩ := retiring.tended.settle_commit commit (sub target)
      (by simp [tombstoned]) (by simp [tombstoned]) distinct (congrArg Prod.snd settled)
      (settled ▸ commits)
    have quiet : ∀ current, next.slots commit.deploymentId = some current →
        ¬Live current := by
      intro current stands
      rcases touches.own current stands with before | ⟨state, _⟩
      · exact retiring.quiet _ target current before
      · simp [Live, state, tombstoned]
    refine ⟨tended, fun deployment current live => ?_, fun deployment member current => ?_⟩
    · by_cases same : deployment = commit.deploymentId
      · subst same
        rw [← retiring.live _ current live]
        exact iff_of_false (fun stands => quiet current stands live)
          fun stands => retiring.quiet _ target current stands live
      · rw [touches.others deployment same]
        exact retiring.live deployment current live
    · by_cases same : deployment = commit.deploymentId
      · subst same
        exact quiet current
      · rw [touches.others deployment same]
        exact retiring.quiet deployment member current
  · obtain ⟨store, identity, responses⟩ := settle_plain burying fate
    refine ⟨retiring.tended.congr store identity responses, ?_, ?_⟩
    · simpa only [Host.slots, store] using retiring.live
    · simpa only [Host.slots, store] using retiring.quiet

/-- A run of such calls keeps the live records. -/
theorem Retiring.runs {α : Type}
    {script : Remote α}
    {result : Option α}
    (retiring : Retiring hash scope members known ids targets replicaId base host)
    (distinct : Set.InjOn hash.catalog known)
    (sub : targets ⊆ ids)
    (uses : script.Uses (Burying targets))
    (runs : Script.Runs (hostWorld hash) script host result calls final)
    (commits : ∀ call ∈ calls, Commits known call) :
    Retiring hash scope members known ids targets replicaId base final :=
  Script.Triple.of_uses uses
    (fun _ _ fate burying lawful retiring => retiring.settle distinct sub fate burying lawful)
    host result calls final runs commits retiring

section Uses

variable {ctx : EndpointDeploymentContext} {clock : Clock} {allowed : Request → Prop}
variable {serviceName : String} {service : Option Service}

theorem uses_captureOrphanedStaticImage
    (plain : ∀ request, Plain request → Idle request → allowed request) :
    (captureOrphanedStaticImage serviceName service oldName).Uses allowed := by
  unfold captureOrphanedStaticImage
  split
  · trivial
  · refine Script.Uses.bind (Script.Uses.bind ⟨plain _ trivial trivial, fun _ => trivial⟩
      fun specs => ?_) fun kept => ?_
    · split <;> trivial
    · cases kept with
      | true => trivial
      | false =>
          refine ⟨plain _ trivial trivial, fun reply => ?_⟩
          dsimp only
          split <;> trivial

theorem uses_finishOrphanedStaticImageCleanup
    (plain : ∀ request, Plain request → Idle request → allowed request) :
    (finishOrphanedStaticImageCleanup orphanedImage).Uses allowed := by
  unfold finishOrphanedStaticImageCleanup
  split
  · trivial
  · refine ⟨plain _ trivial trivial, fun reply => ?_⟩
    dsimp only
    split
    · exact Script.Uses.bind (uses_command (plain _ trivial trivial)) fun _ => trivial
    · trivial

/-- Sweeping a record removes its container and buries its deployment. -/
theorem uses_sweepRecord
    (plain : ∀ request, Plain request → Idle request → allowed request)
    (removes : allowed (.removeIfPresent
      (dynamicContainerName ctx.project serviceName record.deploymentId)))
    (buries : ∀ commit : CatalogCommit, commit.deploymentId = record.deploymentId →
      commit.state = .tombstoned →
      allowed (.agent (some (catalogKey commit.deploymentId .tombstoned))
        (.catalogCommit commit))) :
    (sweepRecord ctx clock serviceName service record).Uses allowed := by
  refine Script.Uses.bind (uses_captureOrphanedStaticImage plain) fun _ => ?_
  refine Script.Uses.bind (uses_command removes) fun outcome => ?_
  cases outcome with
  | error error => trivial
  | ok value =>
      refine Script.Uses.bind (uses_finishOrphanedStaticImageCleanup plain) fun _ => ?_
      refine Script.Uses.bind (uses_releaseAddress plain) fun _ => ?_
      exact Script.Uses.bind ⟨buries ⟨record.service, record.replicaId, record.deploymentId,
        record.address.display, record.ports, record.image, .tombstoned, .unknown⟩ rfl rfl,
        fun _ => trivial⟩ fun _ => trivial

end Uses

/-- A successful listing returns the catalog. -/
theorem listed_of_runs
    (runs : Script.Runs (hostWorld hash) catalog host (some (.ok records)) calls final) :
    records = host.api.store.latestCatalog ∧ final = host := by
  rw [catalog_eq_ask] at runs
  obtain ⟨fate, _, rfl, decoded⟩ := runs.ask_some
  obtain ⟨_, conditions, performed⟩ := performed_of_ok (ok_of_decodeCatalog decoded.symm)
  obtain ⟨listed, same⟩ := Prod.mk.inj performed
  refine ⟨?_, same.symm⟩
  simpa [Host.askAgent, AgentApi.handleIdempotent, AgentApi.handle, replyOf, eq_comm]
    using listed

/-- Sweeping keeps the live records. -/
theorem Retiring.sweep
    {ctx : EndpointDeploymentContext}
    {clock : Clock}
    {serviceName : String}
    {service : Option Service}
    {result : Option Unit}
    (retiring : Retiring hash scope members known ids ∅ replicaId base host)
    (distinct : Set.InjOn hash.catalog known)
    (runs : Script.Runs (hostWorld hash)
      (sweepStuckDrainingRecords ctx clock serviceName service) host result calls final)
    (commits : ∀ call ∈ calls, Commits known call) :
    Retiring hash scope members known ids ∅ replicaId base final := by
  have listing : catalog.Uses (Burying ∅) := uses_catalog (.of_plain trivial)
  rcases runs.bind_cases with ⟨_, cut⟩ | ⟨outcome, _, _, middle, whole, continued, rfl⟩
  · exact retiring.runs distinct (Set.empty_subset _) listing cut commits
  · rw [List.forall_mem_append] at commits
    cases outcome with
    | error error =>
        cases continued
        exact retiring.runs distinct (Set.empty_subset _) listing whole commits.1
    | ok records =>
        obtain ⟨rfl, rfl⟩ := listed_of_runs whole
        have stuck : ∀ record ∈ middle.api.store.latestCatalog.filter
            (stuckDraining ctx serviceName),
            middle.slots record.deploymentId = some record ∧ ¬Live record := by
          intro record member
          obtain ⟨latest, draining⟩ := List.mem_filter.mp member
          obtain ⟨deployment, stands⟩ := AgentStore.mem_latestCatalog.mp latest
          obtain rfl : record.deploymentId = deployment :=
            retiring.tended.grounded.proper.sound.catalog.keyed _ _ stands
          refine ⟨stands, ?_⟩
          simp only [stuckDraining, Bool.and_eq_true, decide_eq_true_eq] at draining
          simp [Live, draining.2]
        have swept : Retiring hash scope members known ids
            { deployment | ∃ record ∈ middle.api.store.latestCatalog.filter
              (stuckDraining ctx serviceName), record.deploymentId = deployment }
            replicaId base middle := by
          refine ⟨retiring.tended, retiring.live, ?_⟩
          rintro _ ⟨record, member, rfl⟩ current stands
          rw [(stuck record member).1] at stands
          exact Option.some.inj stands ▸ (stuck record member).2
        have kept := swept.runs distinct (by
            rintro _ ⟨record, member, rfl⟩
            exact retiring.tended.slots _ _ (stuck record member).1)
          (.forEach fun record member => uses_sweepRecord (fun _ plain _ => .of_plain plain)
            (.of_plain trivial) fun _ same state => ⟨same ▸ ⟨record, member, rfl⟩, by rw [state], state⟩) continued
          commits.2
        exact ⟨kept.tended, kept.live, by simp⟩

/-- After the commit that drains it, retiring the previous deployment stops and removes
its container and buries it. -/
theorem uses_retirePrevious_rest
    (ctx : EndpointDeploymentContext)
    (clock : Clock)
    (previous : CatalogRecord)
    (allowed : Request → Prop)
    (plain : ∀ request, Plain request → Idle request → allowed request)
    (stops : allowed (.stop (containerName ctx previous.deploymentId)))
    (removes : allowed (.removeIfPresent (containerName ctx previous.deploymentId)))
    (buries : ∀ commit : CatalogCommit, commit.deploymentId = previous.deploymentId →
      commit.state = .tombstoned →
      allowed (.agent (some (catalogKey commit.deploymentId .tombstoned))
        (.catalogCommit commit))) :
    ∃ rest : CatalogRecord → Remote (Except DeployError Bool),
      retirePrevious ctx clock previous =
        (commitCatalog ctx previous.replicaId previous.deploymentId previous.address
          previous.ports .draining .unknown).andThen rest ∧
      ∀ record, (rest record).Uses allowed := by
  refine ⟨_, rfl, fun record => ?_⟩
  refine Script.Uses.bind (uses_captureOrphanedStaticImage plain) fun _ => ?_
  refine Script.Uses.bind (uses_command stops) fun _ => ?_
  refine Script.Uses.bind (uses_command removes) fun outcome => ?_
  cases outcome with
  | error error =>
      dsimp only
      split <;> trivial
  | ok value =>
      refine Script.Uses.bind (uses_finishOrphanedStaticImageCleanup plain) fun _ => ?_
      refine Script.Uses.andThen (uses_releaseAddress plain) fun _ => ?_
      refine Script.Uses.andThen ?_ fun _ => trivial
      rw [commitCatalog_eq_ask]
      exact ⟨buries ⟨ctx.serviceName, previous.replicaId, previous.deploymentId,
        previous.address.display, previous.ports, ctx.image, .tombstoned, .unknown⟩ rfl rfl,
        fun _ => trivial⟩

/-- The live records after a deployment was retired. -/
def Retires (previous : Option CatalogRecord) (before after : Host) : Prop :=
  ∀ deployment current, Live current →
    (after.slots deployment = some current ↔
      before.slots deployment = some current ∧ previous ≠ some current)

/-- The commit that drains the previous deployment keeps a host tended, and when it is
confirmed the deployment is no longer live. -/
theorem Tended.drain
    {previous : CatalogRecord}
    {result : Option (Except DeployError CatalogRecord)}
    (tended : Tended hash scope ctx.replicaId members known ids host)
    (distinct : Set.InjOn hash.catalog known)
    (stands : host.slots previous.deploymentId = some previous)
    (replica : previous.replicaId = ctx.replicaId)
    (live : Live previous)
    (runs : Script.Runs (hostWorld hash)
      (commitCatalog ctx previous.replicaId previous.deploymentId previous.address
        previous.ports .draining .unknown) host result calls final)
    (commits : ∀ call ∈ calls, Commits known call) :
    Tended hash scope ctx.replicaId members known ids final ∧
      ∀ record, result = some (.ok record) →
        Retires (some previous) host final ∧
          ∀ current, final.slots previous.deploymentId = some current → ¬Live current := by
  rw [commitCatalog_eq_ask] at runs
  cases result with
  | none =>
      cases runs with
      | stopped => exact ⟨tended, by simp⟩
      | call fate rest => cases rest
  | some result =>
      obtain ⟨fate, rfl, settled, decoded⟩ := runs.ask_some
      have lawful := commits _ (List.mem_singleton_self _)
      have yields : ∀ identity, host.api.catalogIdentity = some identity →
          host.api.store.Yields hash identity ⟨ctx.serviceName, previous.replicaId,
            previous.deploymentId, previous.address.display, previous.ports, ctx.image,
            .draining, .unknown⟩ := by
        intro identity configured current found
        obtain rfl : previous = current := Option.some.inj (stands.symm.trans found)
        exact ⟨rfl, tended.epochs _ previous stands replica identity configured⟩
      obtain ⟨kept, touches, _⟩ := tended.settle_commit
        ⟨ctx.serviceName, previous.replicaId, previous.deploymentId, previous.address.display,
          previous.ports, ctx.image, .draining, .unknown⟩ (tended.slots _ _ stands) (by simp)
        (fun _ => yields) distinct settled.symm lawful
      refine ⟨kept, fun record succeeded => ?_⟩
      obtain rfl := Option.some.inj succeeded
      have replied := ok_of_decodeCommit decoded.symm
      obtain ⟨answered, conditions, performed⟩ := performed_of_ok replied
      rcases perform_catalogCommit_cases performed with
        ⟨cached, found, confirmed, _⟩ | ⟨_, _, refused, _⟩ |
          ⟨_, identity, written, store, configured, committed, confirmed, next⟩
      · cases cached with
        | error error => simp [replyOf] at confirmed
        | ok response => exact absurd live (tended.drained _ response found previous stands)
      · simp at refused
      · have recorded : written ∈ known := lawful written (confirmed ▸ answered)
        have wins := (tended.grounded.proper_of_identity configured).catalogCommit_wins
          (yields identity configured)
          (fun logged present same => distinct (tended.logged logged present) recorded same)
          committed
        obtain ⟨_, _, _, _, _, _, shape, _⟩ :=
          AgentStore.applyCatalog_of_catalogCommit committed
        have slots : final.slots = Function.update host.slots previous.deploymentId
            (some written) := by
          rw [settled]
          simp only [next, Host.slots, wins]
        have drained : ¬Live written := by simp [shape, Live, AgentStore.nextCatalog]
        refine ⟨fun deployment current alive => ?_, fun current found => ?_⟩
        · rw [slots, Function.update_apply]
          split
          · rename_i same
            subst same
            rw [stands]
            refine iff_of_false (fun same => drained (Option.some.inj same ▸ alive)) ?_
            exact fun both => both.2 both.1
          · rename_i different
            refine ⟨fun found => ⟨found, ?_⟩, And.left⟩
            rintro same
            obtain rfl := Option.some.inj same
            exact different (tended.grounded.proper.sound.catalog.keyed _ _ found).symm
        · rw [slots, Function.update_self] at found
          exact Option.some.inj found ▸ drained

/-- Retiring the previous deployment keeps a host tended, and when it succeeds the other
live records are kept. -/
theorem Tended.retire
    {ctx : EndpointDeploymentContext}
    {clock : Clock}
    {previous : Option CatalogRecord}
    {result : Option (Except DeployError Bool)}
    (tended : Tended hash scope ctx.replicaId members known ids host)
    (distinct : Set.InjOn hash.catalog known)
    (found : ∀ record, previous = some record →
      host.slots record.deploymentId = some record ∧ record.replicaId = ctx.replicaId ∧
        Live record)
    (runs : Script.Runs (hostWorld hash) (retire ctx clock previous) host result calls final)
    (commits : ∀ call ∈ calls, Commits known call) :
    Tended hash scope ctx.replicaId members known ids final ∧
      ∀ deferred, result = some (.ok deferred) → Retires previous host final := by
  cases previous with
  | none =>
      cases runs
      exact ⟨tended, fun _ _ _ _ _ => by simp⟩
  | some record =>
      obtain ⟨stands, replica, live⟩ := found record rfl
      obtain ⟨rest, shape, buries⟩ :=
        uses_retirePrevious_rest ctx clock record (Burying { record.deploymentId })
          (fun _ plain _ => .of_plain plain) (.of_plain trivial) (.of_plain trivial)
          fun _ same state => ⟨same, by rw [state], state⟩
      change Script.Runs (hostWorld hash) (retirePrevious ctx clock record) host result calls
        final at runs
      rw [shape] at runs
      rcases runs.andThen_cases with ⟨rfl, cut⟩ | ⟨error, rfl, refused⟩ |
        ⟨drained, _, _, middle, draining, continued, rfl⟩
      · exact ⟨(tended.drain distinct stands replica live cut commits).1, by simp⟩
      · exact ⟨(tended.drain distinct stands replica live refused commits).1, by simp⟩
      · rw [List.forall_mem_append] at commits
        obtain ⟨kept, succeeded⟩ := tended.drain distinct stands replica live draining commits.1
        obtain ⟨retires, quiet⟩ := succeeded drained rfl
        have retiring : Retiring hash scope members known ids { record.deploymentId }
            ctx.replicaId middle middle :=
          ⟨kept, fun _ _ _ => Iff.rfl, fun _ same => (Set.mem_singleton_iff.mp same) ▸ quiet⟩
        have buried := retiring.runs distinct
          (Set.singleton_subset_iff.mpr (tended.slots _ _ stands)) (buries drained) continued
          commits.2
        exact ⟨buried.tended, fun _ _ deployment current alive =>
          (buried.live deployment current alive).trans (retires deployment current alive)⟩

/-- The end of a run keeps a host tended, and when it succeeds the live records are
those from before without the previous deployment. -/
theorem Tended.conclude
    (tended : Tended hash scope ctx.replicaId members known ids host)
    (distinct : Set.InjOn hash.catalog known)
    (found : ∀ record, previous = some record →
      host.slots record.deploymentId = some record ∧ record.replicaId = ctx.replicaId ∧
        Live record)
    (runs : Script.Runs (hostWorld hash)
      (concludeDeployment ctx clock deploymentId address previous) host result calls final)
    (commits : ∀ call ∈ calls, Commits known call) :
    Tended hash scope ctx.replicaId members known ids final ∧
      ∀ deployed, result = some (.ok deployed) → Retires previous host final := by
  rcases runs.andThen_cases with ⟨rfl, cut⟩ | ⟨error, rfl, refused⟩ |
    ⟨deferred, _, _, middle, retiring, continued, rfl⟩
  · exact ⟨(tended.retire distinct found cut commits).1, by simp⟩
  · exact ⟨(tended.retire distinct found refused commits).1, by simp⟩
  · rw [List.forall_mem_append] at commits
    obtain ⟨kept, succeeded⟩ := tended.retire distinct found retiring commits.1
    have retires := succeeded deferred rfl
    have idle : Retiring hash scope members known ids ∅ ctx.replicaId middle middle :=
      ⟨kept, fun _ _ _ => Iff.rfl, by simp⟩
    have swept : Retiring hash scope members known ids ∅ ctx.replicaId middle final := by
      rcases continued.bind_cases with ⟨_, cut⟩ | ⟨_, _, _, _, sweeping, atEnd, rfl⟩
      · exact idle.sweep distinct cut commits.2
      · cases atEnd
        rw [List.append_nil] at commits
        exact idle.sweep distinct sweeping commits.2
    exact ⟨swept.tended, fun _ _ deployment current alive =>
      (swept.live deployment current alive).trans (retires deployment current alive)⟩

end Retirement

end Cli
end Jiji
