import Jiji.Agent.Store

/-!
# Cron runs

An agent stores the cron jobs that are installed on its node, their runs and what its
scheduler knows of each job.  A run is claimed in one transaction, which refuses a second
run of a scheduled time and a run that would overlap an active one.  The later moves of a
run write its state without a look at the state that it has.
-/

namespace Jiji
namespace Agent

/-- A cron job of a service. -/
structure CronJob where
  service : String
  cronName : String
  deriving DecidableEq, Repr

structure CronJobSpec where
  job : CronJob
  revision : ℕ
  canonicalHash : String
  schedule : String
  timezone : String
  timeoutSeconds : ℕ
  deriving DecidableEq, Repr

inductive CronRunCause
  | scheduled
  | manual
  deriving DecidableEq, Repr

inductive CronRunState
  | claimed
  | running
  | succeeded
  | failed
  | timedOut
  | skipped
  deriving DecidableEq, Repr

/-- A run that is not over. -/
def CronRunState.isActive : CronRunState → Bool
  | .claimed => true
  | .running => true
  | _ => false

structure CronRun where
  runId : String
  project : String
  job : CronJob
  cause : CronRunCause
  scheduledAt : Option ℕ
  claimedAt : ℕ
  startedAt : Option ℕ
  finishedAt : Option ℕ
  state : CronRunState
  deploymentId : Option String
  containerName : Option String
  address : Option String
  exitCode : Option ℤ
  error : Option String
  deriving DecidableEq, Repr

namespace CronRun

/-- A run whose container has started. -/
def started
    (run : CronRun)
    (startedAt : ℕ)
    (deploymentId containerName address : String) : CronRun :=
  { run with
    state := .running
    startedAt := some startedAt
    deploymentId := some deploymentId
    containerName := some containerName
    address := some address }

/-- A run with its end. -/
def ended
    (run : CronRun)
    (state : CronRunState)
    (finishedAt : ℕ)
    (exitCode : Option ℤ)
    (error : Option String) : CronRun :=
  { run with
    state := state
    finishedAt := some finishedAt
    exitCode := exitCode
    error := error }

end CronRun

/-- What the scheduler knows of a job. -/
structure CronSchedulerState where
  skippedOverlapCount : ℕ
  lastEvaluatedAt : Option ℕ
  nextDueAt : Option ℕ
  deriving DecidableEq, Repr

/-- The tables of cron jobs with their primary keys. -/
structure CronStore where
  specs : List CronJobSpec
  runs : List CronRun
  scheduler : CronJob → Option CronSchedulerState
  /-- A job is installed once. -/
  specs_nodup : (specs.map CronJobSpec.job).Nodup
  /-- A run has an identifier of its own. -/
  runs_nodup : (runs.map CronRun.runId).Nodup

inductive CronClaimOutcome
  | claimed (run : CronRun)
  | duplicateScheduledClaim (run : CronRun)
  | overlapForbidden (activeRunId : String)
  deriving DecidableEq, Repr

inductive CronSpecApplyOutcome
  | installed
  | updated
  | unchanged
  deriving DecidableEq, Repr

namespace CronStore

/-- The store of a fresh database. -/
def empty : CronStore where
  specs := []
  runs := []
  scheduler := fun _ => none
  specs_nodup := List.nodup_nil
  runs_nodup := List.nodup_nil

/-- The order of the listing of the installed jobs. -/
def listedBefore (left right : CronJobSpec) : Prop :=
  left.job.service < right.job.service ∨
    left.job.service = right.job.service ∧ left.job.cronName ≤ right.job.cronName

instance (left right : CronJobSpec) : Decidable (listedBefore left right) :=
  inferInstanceAs (Decidable (_ ∨ _))

def cronSpec (store : CronStore) (job : CronJob) : Option CronJobSpec :=
  store.specs.find? fun spec => spec.job = job

/-- The installed jobs by service and name. -/
def cronSpecs (store : CronStore) : List CronJobSpec := store.specs.insertionSort listedBefore

/-- Install a job, or replace what is installed of it. -/
def applyCronSpec (store : CronStore) (spec : CronJobSpec) : CronSpecApplyOutcome × CronStore :=
  (match store.cronSpec spec.job with
    | none => .installed
    | some existing =>
        if existing.revision = spec.revision ∧ existing.canonicalHash = spec.canonicalHash then
          .unchanged
        else .updated,
    { store with
      specs := spec :: store.specs.filter fun other => other.job ≠ spec.job
      specs_nodup := by
        rw [List.map_cons, List.nodup_cons]
        constructor
        · simp
        · exact store.specs_nodup.sublist (List.filter_sublist.map _) })

/-- Remove an installed job; its runs and what the scheduler knows of it stay. -/
def removeCronSpec (store : CronStore) (job : CronJob) : Bool × CronStore :=
  ((store.cronSpec job).isSome,
    { store with
      specs := store.specs.filter fun spec => spec.job ≠ job
      specs_nodup := store.specs_nodup.sublist (List.filter_sublist.map _) })

def cronRun (store : CronStore) (runId : String) : Option CronRun :=
  store.runs.find? fun run => run.runId = runId

/-- The run of a job that is not over. -/
def activeCronRun (store : CronStore) (job : CronJob) : Option CronRun :=
  store.runs.find? fun run => run.job = job && run.state.isActive

/-- The run of a job for a scheduled time. -/
def scheduledCronRun (store : CronStore) (job : CronJob) (scheduledAt : ℕ) : Option CronRun :=
  store.runs.find? fun run => run.job = job && run.scheduledAt = some scheduledAt

/-- The time at which the scheduler wants to run a job next. -/
def nextDueAt (store : CronStore) (job : CronJob) : Option ℕ :=
  (store.scheduler job).bind CronSchedulerState.nextDueAt

/-- Count a run that was not claimed because of an active one. -/
def countOverlap (store : CronStore) (job : CronJob) : CronStore :=
  { store with
    scheduler := Function.update store.scheduler job (some (match store.scheduler job with
      | none => ⟨1, none, none⟩
      | some state => { state with skippedOverlapCount := state.skippedOverlapCount + 1 })) }

/-- A run that has just been claimed. -/
def newRun
    (project : String)
    (job : CronJob)
    (cause : CronRunCause)
    (scheduledAt : Option ℕ)
    (runId : String)
    (timestamp : ℕ) : CronRun where
  runId := runId
  project := project
  job := job
  cause := cause
  scheduledAt := scheduledAt
  claimedAt := timestamp
  startedAt := none
  finishedAt := none
  state := .claimed
  deploymentId := none
  containerName := none
  address := none
  exitCode := none
  error := none

/-- Claim a run of a job. -/
def claimCronRun
    (store : CronStore)
    (project : String)
    (job : CronJob)
    (cause : CronRunCause)
    (scheduledAt : Option ℕ)
    (runId : String)
    (timestamp : ℕ) : Except StoreError (CronClaimOutcome × CronStore) :=
  match scheduledAt.bind (store.scheduledCronRun job) with
  | some existing => .ok (.duplicateScheduledClaim existing, store)
  | none =>
      match store.activeCronRun job with
      | some active => .ok (.overlapForbidden active.runId, store.countOverlap job)
      | none =>
          if fresh : runId ∈ store.runs.map CronRun.runId then .error .database
          else
            let run := newRun project job cause scheduledAt runId timestamp
            .ok (.claimed run,
              { store with
                runs := store.runs ++ [run]
                runs_nodup := by
                  rw [List.map_append, List.nodup_append]
                  refine ⟨store.runs_nodup, List.nodup_singleton _, ?_⟩
                  intro old member new isNew same
                  obtain rfl := List.mem_singleton.mp isNew
                  exact fresh (same ▸ member) })

/-- Change the run of an identifier. -/
def updateRun
    (store : CronStore)
    (runId : String)
    (change : CronRun → CronRun)
    (keeps : ∀ run, (change run).runId = run.runId) : CronStore :=
  { store with
    runs := store.runs.map fun run => if run.runId = runId then change run else run
    runs_nodup := by
      have same : (CronRun.runId ∘ fun run => if run.runId = runId then change run else run) =
          CronRun.runId := by
        funext run
        simp only [Function.comp_apply]
        split
        · exact keeps run
        · rfl
      rw [List.map_map, same]
      exact store.runs_nodup }

/-- Record that the container of a run has started. -/
def startCronRun
    (store : CronStore)
    (runId : String)
    (startedAt : ℕ)
    (deploymentId containerName address : String) : Bool × CronStore :=
  ((store.cronRun runId).isSome,
    store.updateRun runId (·.started startedAt deploymentId containerName address)
      fun _ => rfl)

/-- Record the end of a run. -/
def finishCronRun
    (store : CronStore)
    (runId : String)
    (state : CronRunState)
    (finishedAt : ℕ)
    (exitCode : Option ℤ)
    (error : Option String) : Bool × CronStore :=
  ((store.cronRun runId).isSome,
    store.updateRun runId (·.ended state finishedAt exitCode error) fun _ => rfl)

/-- Record when a job was looked at and when it is due next. -/
def setCronSchedulerState
    (store : CronStore)
    (job : CronJob)
    (lastEvaluatedAt nextDueAt : Option ℕ) : CronStore :=
  { store with
    scheduler := Function.update store.scheduler job
      (some ⟨((store.scheduler job).map CronSchedulerState.skippedOverlapCount).getD 0,
        lastEvaluatedAt, nextDueAt⟩) }

/-- The runs of a job that are over, the latest claim first. -/
def completedRuns (store : CronStore) (job : CronJob) : List CronRun :=
  (store.runs.filter fun run => run.job = job && !run.state.isActive).insertionSort
    fun left right => right.claimedAt ≤ left.claimedAt

/-- A run that retention deletes: it is over, was claimed before the cutoff and is not among
the latest of its job. -/
def outdated (store : CronStore) (cutoff keepLatest : ℕ) (run : CronRun) : Bool :=
  !run.state.isActive && run.claimedAt < cutoff &&
    !((store.completedRuns run.job).take keepLatest).contains run

/-- Delete old runs. -/
def retainCronRuns (store : CronStore) (now keepSeconds keepLatest : ℕ) : ℕ × CronStore :=
  let kept := store.runs.filter fun run => !store.outdated (now - keepSeconds) keepLatest run
  (store.runs.length - kept.length,
    { store with
      runs := kept
      runs_nodup := store.runs_nodup.sublist (List.filter_sublist.map _) })

section Specs

variable {store next : CronStore} {job other : CronJob} {spec : CronJobSpec}

theorem mem_applyCronSpec {installed : CronJobSpec} :
    spec ∈ (store.applyCronSpec installed).2.specs ↔
      spec = installed ∨ spec ∈ store.specs ∧ spec.job ≠ installed.job := by
  simp [applyCronSpec]

theorem mem_removeCronSpec :
    spec ∈ (store.removeCronSpec job).2.specs ↔ spec ∈ store.specs ∧ spec.job ≠ job := by
  simp [removeCronSpec]

theorem mem_cronSpecs : spec ∈ store.cronSpecs ↔ spec ∈ store.specs :=
  (List.perm_insertionSort _ _).mem_iff

/-- The specification of an installed job is unique. -/
theorem cronSpec_eq_some_iff :
    store.cronSpec job = some spec ↔ spec ∈ store.specs ∧ spec.job = job := by
  constructor
  · intro found
    exact ⟨List.mem_of_find?_eq_some found, by simpa using List.find?_some found⟩
  · rintro ⟨member, rfl⟩
    cases found : store.cronSpec spec.job with
    | none => simpa using List.find?_eq_none.mp found spec member
    | some installed =>
        have same : installed.job = spec.job := by simpa using List.find?_some found
        rw [List.inj_on_of_nodup_map store.specs_nodup (List.mem_of_find?_eq_some found) member
          same]

theorem cronSpec_applyCronSpec_self :
    (store.applyCronSpec spec).2.cronSpec spec.job = some spec :=
  cronSpec_eq_some_iff.mpr ⟨mem_applyCronSpec.mpr (Or.inl rfl), rfl⟩

theorem cronSpec_applyCronSpec_of_ne (different : job ≠ spec.job) :
    (store.applyCronSpec spec).2.cronSpec job = store.cronSpec job := by
  ext found
  rw [cronSpec_eq_some_iff, cronSpec_eq_some_iff, mem_applyCronSpec]
  constructor
  · rintro ⟨rfl | ⟨member, _⟩, rfl⟩
    · exact absurd rfl different
    · exact ⟨member, rfl⟩
  · rintro ⟨member, rfl⟩
    exact ⟨Or.inr ⟨member, different⟩, rfl⟩

theorem cronSpec_removeCronSpec_self : (store.removeCronSpec job).2.cronSpec job = none := by
  rw [Option.eq_none_iff_forall_ne_some]
  intro found isFound
  obtain ⟨member, same⟩ := cronSpec_eq_some_iff.mp isFound
  exact (mem_removeCronSpec.mp member).2 same

theorem cronSpec_removeCronSpec_of_ne (different : other ≠ job) :
    (store.removeCronSpec job).2.cronSpec other = store.cronSpec other := by
  ext found
  rw [cronSpec_eq_some_iff, cronSpec_eq_some_iff, mem_removeCronSpec]
  constructor
  · exact fun ⟨member, same⟩ => ⟨member.1, same⟩
  · rintro ⟨member, rfl⟩
    exact ⟨⟨member, different⟩, rfl⟩

end Specs

section Claims

variable {store next : CronStore} {job other : CronJob} {runId : String}

theorem mem_startCronRun
    {run : CronRun} :
    run ∈ (store.startCronRun runId startedAt deploymentId containerName address).2.runs ↔
      ∃ before ∈ store.runs,
        (if before.runId = runId then
          before.started startedAt deploymentId containerName address else before) = run :=
  List.mem_map

theorem mem_finishCronRun
    {run : CronRun} :
    run ∈ (store.finishCronRun runId state finishedAt exitCode error).2.runs ↔
      ∃ before ∈ store.runs,
        (if before.runId = runId then before.ended state finishedAt exitCode error
          else before) = run :=
  List.mem_map

/-- The run of an identifier is unique. -/
theorem eq_of_runId
    (leftMember : left ∈ store.runs)
    (rightMember : right ∈ store.runs)
    (same : left.runId = right.runId) :
    left = right :=
  List.inj_on_of_nodup_map store.runs_nodup leftMember rightMember same

/-- What a claim does: it meets a run of the same scheduled time, it meets an active run of
its job, or it adds a run with a new identifier to a job without an active run. -/
theorem claimCronRun_cases
    (claims : store.claimCronRun project job cause scheduledAt runId timestamp =
      .ok (outcome, next)) :
    (∃ existing, outcome = .duplicateScheduledClaim existing ∧ next = store) ∨
    (∃ activeRunId, outcome = .overlapForbidden activeRunId ∧ next = store.countOverlap job) ∨
    (outcome = .claimed (newRun project job cause scheduledAt runId timestamp) ∧
      scheduledAt.bind (store.scheduledCronRun job) = none ∧
      store.activeCronRun job = none ∧
      (∀ run ∈ store.runs, run.runId ≠ runId) ∧
      next.runs = store.runs ++ [newRun project job cause scheduledAt runId timestamp] ∧
      next.specs = store.specs ∧ next.scheduler = store.scheduler) := by
  unfold claimCronRun at claims
  split at claims
  · obtain ⟨rfl, rfl⟩ := Prod.mk.inj (Except.ok.inj claims)
    exact Or.inl ⟨_, rfl, rfl⟩
  · rename_i unscheduled
    split at claims
    · obtain ⟨rfl, rfl⟩ := Prod.mk.inj (Except.ok.inj claims)
      exact Or.inr (Or.inl ⟨_, rfl, rfl⟩)
    · rename_i inactive
      split at claims
      · cases claims
      · rename_i fresh
        obtain ⟨rfl, rfl⟩ := Prod.mk.inj (Except.ok.inj claims)
        refine Or.inr (Or.inr ⟨rfl, unscheduled, inactive, ?_, rfl, rfl, rfl⟩)
        intro run member same
        exact fresh (List.mem_map.mpr ⟨run, member, same⟩)

/-- A refused claim leaves the due times alone. -/
theorem nextDueAt_countOverlap :
    (store.countOverlap job).nextDueAt other = store.nextDueAt other := by
  simp only [nextDueAt, countOverlap, Function.update_apply]
  split
  · rename_i same
    subst same
    cases store.scheduler other with
    | none => rfl
    | some state => rfl
  · rfl

theorem nextDueAt_setCronSchedulerState (lastEvaluatedAt due : Option ℕ) :
    (store.setCronSchedulerState job lastEvaluatedAt due).nextDueAt other =
      if other = job then due else store.nextDueAt other := by
  simp only [nextDueAt, setCronSchedulerState, Function.update_apply]
  split
  · rfl
  · rfl

/-- The listing shows each job once. -/
theorem cronSpecs_nodup (store : CronStore) :
    (store.cronSpecs.map CronJobSpec.job).Nodup :=
  ((List.perm_insertionSort listedBefore store.specs).map CronJobSpec.job).nodup_iff.mpr
    store.specs_nodup

end Claims

end CronStore

end Agent
end Jiji
