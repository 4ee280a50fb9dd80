import Jiji.Agent.CronStore

/-!
# Recovery of cron runs

A run is watched by a task of the agent, and no task survives a restart.  Before the agent
serves again it lists the containers of cron runs, ends the active runs whose container has
exited or is missing, and watches the others.
-/

namespace Jiji
namespace Agent

/-- A container of a cron run, as the engine lists it. -/
structure CronContainer where
  name : String
  runId : Option String
  running : Bool
  deriving DecidableEq, Repr

/-- A task that waits for the container of a run and then records the end of the run. -/
structure CronMonitor where
  runId : String
  containerName : String
  remaining : ℕ
  deriving DecidableEq, Repr

/-- How the wait for a container ends: with its exit code, with an error of the engine, or
with the end of the time that the run has, after which the container is stopped. -/
inductive WaitOutcome
  | exited (code : ℤ)
  | failed (detail : String)
  | elapsed (code : Option ℤ)
  deriving DecidableEq, Repr

/-- What a monitor records when its wait ends. -/
def CronMonitor.verdict (monitor : CronMonitor) :
    WaitOutcome → CronRunState × Option ℤ × Option String
  | .exited code => (if code = 0 then .succeeded else .failed, some code, none)
  | .failed detail => (.failed, none, some detail)
  | .elapsed code =>
      let remaining := monitor.remaining
      (.timedOut, code,
        some s!"exceeded its configured timeout ({remaining}s remaining when last observed)")

namespace CronStore

/-- The end of a monitor. -/
def monitorAndFinish
    (store : CronStore)
    (monitor : CronMonitor)
    (outcome : WaitOutcome)
    (finishedAt : ℕ) : CronStore :=
  let (state, exitCode, error) := monitor.verdict outcome
  (store.finishCronRun monitor.runId state finishedAt exitCode error).2

def fallbackTimeoutSecs : ℕ := 3600

/-- What is left of the time that a run has. -/
def remainingTimeout (run : CronRun) (timeoutSeconds now : ℕ) : ℕ :=
  min (run.startedAt.getD run.claimedAt + timeoutSeconds) (2 ^ 64 - 1) - now

/-- The store and the monitors of a recovery in progress. -/
structure Recovery where
  store : CronStore
  monitors : List CronMonitor

variable (containers : List CronContainer) (exitCodes : String → Option ℤ) (now : ℕ)

def containerOf (runId : String) : Option CronContainer :=
  containers.find? fun container => container.runId = some runId

/-- Recover one active run. -/
def recoverRun (recovery : Recovery) (run : CronRun) : Recovery :=
  match containerOf containers run.runId with
  | none =>
      { recovery with
        store := (recovery.store.finishCronRun run.runId .failed now none
          (some "cron container missing on agent restart")).2 }
  | some container =>
      if container.running = false then
        let exitCode := exitCodes container.name
        let state : CronRunState := if exitCode = some 0 then .succeeded else .failed
        { recovery with
          store := (recovery.store.finishCronRun run.runId state now exitCode none).2 }
      else
        let timeoutSeconds := ((recovery.store.cronSpec run.job).map
          CronJobSpec.timeoutSeconds).getD fallbackTimeoutSecs
        { recovery with
          monitors := recovery.monitors ++
            [⟨run.runId, container.name, remainingTimeout run timeoutSeconds now⟩] }

/-- The runs that are not over. -/
def activeRuns (store : CronStore) : List CronRun :=
  store.runs.filter fun run => run.state.isActive

/-- The containers that recovery removes: they belong to no active run. -/
def unclaimedContainers (store : CronStore) : List String :=
  (containers.filter fun container =>
    !container.runId.any fun runId =>
      store.activeRuns.any fun run => run.runId = runId).map CronContainer.name

/-- Recover the active runs; without a listing nothing is recovered. -/
def recoverClaimedRuns
    (store : CronStore)
    (listing : Except String (List CronContainer))
    (exitCodes : String → Option ℤ)
    (now : ℕ) : Recovery × List String :=
  match listing with
  | .error _ => (⟨store, []⟩, [])
  | .ok containers =>
      (store.activeRuns.foldl (recoverRun containers exitCodes now) ⟨store, []⟩,
        unclaimedContainers containers store)

section Watched

variable {containers exitCodes now}
variable {store : CronStore} {recovery : Recovery} {run : CronRun} {runId : String}

/-- A run whose end is recorded is over. -/
theorem inactive_of_finishCronRun
    (terminal : state.isActive = false)
    (member : run ∈ (store.finishCronRun runId state finishedAt exitCode error).2.runs)
    (same : run.runId = runId) :
    run.state.isActive = false := by
  obtain ⟨before, _, rfl⟩ := mem_finishCronRun.mp member
  split at same
  · rename_i named
    simp only [named, if_true]
    exact terminal
  · rename_i unnamed
    exact absurd same unnamed

/-- An active run that is left after the end of a run was recorded is another one. -/
theorem active_of_finishCronRun
    (terminal : state.isActive = false)
    (member : run ∈ (store.finishCronRun runId state finishedAt exitCode error).2.runs)
    (active : run.state.isActive = true) :
    run ∈ store.runs ∧ run.runId ≠ runId := by
  have different : run.runId ≠ runId := by
    intro same
    rw [inactive_of_finishCronRun terminal member same] at active
    cases active
  obtain ⟨before, stored, changed⟩ := mem_finishCronRun.mp member
  split at changed
  · rename_i named
    exact absurd (changed ▸ named) different
  · exact ⟨changed ▸ stored, different⟩

/-- A monitor records an end of its run. -/
theorem verdict_inactive (monitor : CronMonitor) (outcome : WaitOutcome) :
    (monitor.verdict outcome).1.isActive = false := by
  cases outcome with
  | exited code =>
      simp only [CronMonitor.verdict]
      split <;> rfl
  | failed detail => rfl
  | elapsed code => rfl

/-- A monitor watches a run if the run is over when the monitor ends, however it ends. -/
def Watches (monitor : CronMonitor) (store : CronStore) (run : CronRun) : Prop :=
  ∀ outcome finishedAt, ∀ ended ∈ (store.monitorAndFinish monitor outcome finishedAt).runs,
    ended.runId = run.runId → ended.state.isActive = false

theorem watches_of_runId
    (same : monitor.runId = run.runId) :
    Watches monitor store run :=
  fun outcome _ _ member named =>
    inactive_of_finishCronRun (verdict_inactive monitor outcome) member (named.trans same.symm)

/-- Every active run is watched or still waits to be recovered. -/
def Recovery.Accounted (recovery : Recovery) (pending : List CronRun) : Prop :=
  ∀ run ∈ recovery.store.runs, run.state.isActive = true →
    (∃ waiting ∈ pending, waiting.runId = run.runId) ∨
      ∃ monitor ∈ recovery.monitors, monitor.runId = run.runId

/-- Recovering a run accounts for it. -/
theorem Recovery.Accounted.recoverRun
    (accounted : recovery.Accounted (run :: pending)) :
    (CronStore.recoverRun containers exitCodes now recovery run).Accounted pending := by
  have ended : ∀ {state : CronRunState} {exitCode : Option ℤ} {error : Option String},
      state.isActive = false →
      Recovery.Accounted { recovery with
        store := (recovery.store.finishCronRun run.runId state now exitCode error).2 }
          pending := by
    intro state exitCode error terminal other member active
    obtain ⟨stored, different⟩ := active_of_finishCronRun terminal member active
    refine (accounted other stored active).imp_left ?_
    rintro ⟨waiting, isPending, same⟩
    rcases List.mem_cons.mp isPending with rfl | later
    · exact absurd same.symm different
    · exact ⟨waiting, later, same⟩
  unfold CronStore.recoverRun
  split
  · exact ended rfl
  · split
    · refine ended ?_
      split <;> rfl
    · intro other member active
      rcases accounted other member active with ⟨waiting, isPending, same⟩ | ⟨monitor, watched⟩
      · rcases List.mem_cons.mp isPending with rfl | later
        · exact Or.inr ⟨_, List.mem_append_right _ (List.mem_singleton_self _), same⟩
        · exact Or.inl ⟨waiting, later, same⟩
      · exact Or.inr ⟨monitor, List.mem_append_left _ watched.1, watched.2⟩

theorem Recovery.Accounted.foldl
    (accounted : recovery.Accounted pending) :
    (pending.foldl (CronStore.recoverRun containers exitCodes now) recovery).Accounted [] := by
  induction pending generalizing recovery with
  | nil => exact accounted
  | cons run pending inductionHypothesis => exact inductionHypothesis accounted.recoverRun

/-- After recovery every active run has a monitor that ends it, exactly when the containers
could be listed or no run was active. -/
theorem recovered_runs_watched_iff
    (store : CronStore)
    (listing : Except String (List CronContainer))
    (exitCodes : String → Option ℤ)
    (now : ℕ) :
    (∀ run ∈ (recoverClaimedRuns store listing exitCodes now).1.store.runs,
      run.state.isActive = true →
        ∃ monitor ∈ (recoverClaimedRuns store listing exitCodes now).1.monitors,
          Watches monitor (recoverClaimedRuns store listing exitCodes now).1.store run) ↔
      (∃ containers, listing = .ok containers) ∨ store.activeRuns = [] := by
  cases listing with
  | ok containers =>
      refine iff_of_true (fun run member active => ?_) (Or.inl ⟨containers, rfl⟩)
      have initially : Recovery.Accounted ⟨store, []⟩ store.activeRuns :=
        fun run member active => Or.inl ⟨run, List.mem_filter.mpr ⟨member, active⟩, rfl⟩
      rcases initially.foldl run member active with ⟨_, impossible, _⟩ | ⟨monitor, watches, same⟩
      · cases impossible
      · exact ⟨monitor, watches, watches_of_runId same⟩
  | error error =>
      simp only [recoverClaimedRuns, List.not_mem_nil, false_and, exists_false, reduceCtorEq,
        false_or, activeRuns, List.filter_eq_nil_iff]

/-- A store with a job whose run has been claimed and started. -/
def sampleRunning : CronStore :=
  let job : CronJob := ⟨"web", "sync"⟩
  let installed := (empty.applyCronSpec ⟨job, 1, "h", "* * * * *", "UTC", 60⟩).2
  match installed.claimCronRun "p" job .scheduled (some 60) "run" 60 with
  | .ok (_, claimed) => (claimed.startCronRun "run" 61 "run" "p-web-cron-sync-run" "10.9.0.5").2
  | .error _ => installed

/-- When the engine does not list the containers, an active run stays active, nobody watches
it, and every later claim of its job is refused. -/
theorem unlisted_run_is_a_ghost :
    let recovery := (recoverClaimedRuns sampleRunning (.error "engine is not running")
      (fun _ => none) 100).1
    recovery.store.runs.map (fun run => (run.runId, run.state)) = [("run", .running)] ∧
      recovery.monitors = [] ∧
      (recovery.store.claimCronRun "p" ⟨"web", "sync"⟩ .manual none "next" 200).map Prod.fst =
        .ok (.overlapForbidden "run") := by
  decide

end Watched

end CronStore

end Agent
end Jiji
