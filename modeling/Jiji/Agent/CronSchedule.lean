import Jiji.Agent.CronRecovery
import Jiji.Control.Machine

/-!
# Scheduled times

A tick of the scheduler looks at every installed job.  It claims a run of a job that is due
and then records when the job is due next, and it does both in sections of their own, with
requests, other tasks and crashes in between.  This module follows the due times through
ticks at arbitrary clock values.
-/

namespace Jiji
namespace Agent

open Control

/-- What a tick does next for the job that it looks at. -/
inductive TickStep
  | evaluate
  | initialise
  | claim (dueAt : ℕ)
  | lease (dueAt : ℕ) (runId : String)
  | setNextDue (dueAt : ℕ)
  deriving DecidableEq

/-- A tick: its clock value, the jobs that it has listed, those that it has not passed yet,
and the jobs of which it has claimed a run. -/
structure Tick where
  now : ℕ
  listed : List CronJob
  specs : List CronJobSpec
  step : TickStep
  claimed : List CronJob

/-- A scheduler with the scheduled times that it has claimed. -/
structure Scheduler where
  store : CronStore
  tick : Option Tick
  history : List (CronJob × ℕ)

inductive SchedulerEvent
  | beginTick (now : ℕ)
  | proceed (leaseError : Option String)
  | manualRun (job : CronJob) (runId : String) (timestamp : ℕ) (leaseError : Option String)
  | applySpec (spec : CronJobSpec)
  | removeSpec (job : CronJob)
  | startRun (runId : String) (startedAt : ℕ) (containerName address : String)
  | finishRun (runId : String) (state : CronRunState) (finishedAt : ℕ) (exitCode : Option ℤ)
      (error : Option String)
  | crash

/-- Lease an address for a run; the outcome of the allocator is given. -/
def CronStore.leased
    (store : CronStore)
    (runId : String)
    (leaseError : Option String)
    (timestamp : ℕ) : CronStore :=
  match leaseError with
  | some error =>
      (store.finishCronRun runId .failed timestamp none
        (some s!"address allocation failed: {error}")).2
  | none => store

/-- What the scheduler is configured with: the project, the next time of a schedule in a time
zone after a given time, and the identifiers of scheduled runs. -/
structure SchedulerConfig where
  project : String
  nextDueAt : String → String → ℕ → Except String ℕ
  scheduledRunId : CronJob → ℕ → String

namespace Scheduler

variable (config : SchedulerConfig)

/-- The due time after a run that was due. -/
def followingDue (spec : CronJobSpec) (dueAt now : ℕ) : Except String ℕ :=
  match config.nextDueAt spec.schedule spec.timezone dueAt with
  | .error error => .error error
  | .ok next =>
      if now < next then .ok next
      else config.nextDueAt spec.schedule spec.timezone now

/-- Record the next due time of a job, if there is one. -/
def setNextDue (store : CronStore) (job : CronJob) (now : ℕ) : Except String ℕ → CronStore
  | .ok next => store.setCronSchedulerState job (some now) (some next)
  | .error _ => store

/-- The next section of a tick for a job. -/
def proceed
    (scheduler : Scheduler)
    (tick : Tick)
    (spec : CronJobSpec)
    (rest : List CronJobSpec)
    (leaseError : Option String) : Scheduler :=
  let store := scheduler.store
  let passed : Tick := { tick with specs := rest, step := .evaluate }
  match tick.step with
  | .evaluate =>
      match store.nextDueAt spec.job with
      | none => { scheduler with tick := some { tick with step := .initialise } }
      | some dueAt =>
          if tick.now < dueAt then { scheduler with tick := some passed }
          else { scheduler with tick := some { tick with step := .claim dueAt } }
  | .initialise =>
      { scheduler with
        store := setNextDue store spec.job tick.now
          (config.nextDueAt spec.schedule spec.timezone tick.now)
        tick := some passed }
  | .claim dueAt =>
      match store.claimCronRun config.project spec.job .scheduled (some dueAt)
          (config.scheduledRunId spec.job dueAt) tick.now with
      | .ok (.claimed run, next) =>
          { store := next
            tick := some { tick with
              step := .lease dueAt run.runId
              claimed := tick.claimed ++ [spec.job] }
            history := scheduler.history ++ [(spec.job, dueAt)] }
      | .ok (.duplicateScheduledClaim _, next) =>
          { scheduler with
            store := next
            tick := some { tick with step := .setNextDue dueAt } }
      | .ok (.overlapForbidden _, next) =>
          { scheduler with
            store := next
            tick := some { tick with step := .setNextDue dueAt } }
      | .error _ => { scheduler with tick := some { tick with step := .setNextDue dueAt } }
  | .lease dueAt runId =>
      { scheduler with
        store := store.leased runId leaseError tick.now
        tick := some { tick with step := .setNextDue dueAt } }
  | .setNextDue dueAt =>
      { scheduler with
        store := setNextDue store spec.job tick.now (followingDue config spec dueAt tick.now)
        tick := some passed }

/-- The store after a manual run. -/
def manualRun
    (store : CronStore)
    (job : CronJob)
    (runId : String)
    (timestamp : ℕ)
    (leaseError : Option String) : CronStore :=
  match store.cronSpec job with
  | none => store
  | some _ =>
      match store.claimCronRun config.project job .manual none runId timestamp with
      | .ok (.claimed run, next) => next.leased run.runId leaseError timestamp
      | .ok (_, next) => next
      | .error _ => store

/-- A tick that has passed every listed job, or no tick at all. -/
def rests (scheduler : Scheduler) : Bool :=
  scheduler.tick.all fun tick => tick.specs.isEmpty

def advance (scheduler : Scheduler) : SchedulerEvent → Option Scheduler
  | .beginTick now =>
      if scheduler.rests then
        let specs := scheduler.store.cronSpecs
        some { scheduler with
          tick := some ⟨now, specs.map CronJobSpec.job, specs, .evaluate, []⟩ }
      else none
  | .proceed leaseError =>
      match scheduler.tick with
      | none => none
      | some tick =>
          match tick.specs with
          | [] => none
          | spec :: rest => some (scheduler.proceed config tick spec rest leaseError)
  | .manualRun job runId timestamp leaseError =>
      some { scheduler with
        store := manualRun config scheduler.store job runId timestamp leaseError }
  | .applySpec spec =>
      some { scheduler with store := (scheduler.store.applyCronSpec spec).2 }
  | .removeSpec job =>
      some { scheduler with store := (scheduler.store.removeCronSpec job).2 }
  | .startRun runId startedAt containerName address =>
      some { scheduler with
        store := (scheduler.store.startCronRun runId startedAt runId containerName address).2 }
  | .finishRun runId state finishedAt exitCode error =>
      some { scheduler with
        store := (scheduler.store.finishCronRun runId state finishedAt exitCode error).2 }
  | .crash => some { scheduler with tick := none }

end Scheduler

/-- The scheduler as a machine. -/
def schedulerMachine (config : SchedulerConfig) : Machine Scheduler SchedulerEvent where
  advance := Scheduler.advance config

/-- A change of the store that touches no due time and keeps every scheduled time. -/
structure CronStore.Keeps (before after : CronStore) : Prop where
  due : ∀ job, after.nextDueAt job = before.nextDueAt job
  runs : ∀ run ∈ before.runs, ∃ kept ∈ after.runs, kept.job = run.job ∧
    kept.scheduledAt = run.scheduledAt

namespace CronStore

variable {store next : CronStore}

theorem Keeps.refl (store : CronStore) : store.Keeps store :=
  ⟨fun _ => rfl, fun run member => ⟨run, member, rfl, rfl⟩⟩

theorem Keeps.trans
    {last : CronStore}
    (first : store.Keeps next)
    (second : next.Keeps last) :
    store.Keeps last where
  due job := (second.due job).trans (first.due job)
  runs run member := by
    obtain ⟨kept, keptMember, sameJob, sameTime⟩ := first.runs run member
    obtain ⟨again, againMember, againJob, againTime⟩ := second.runs kept keptMember
    exact ⟨again, againMember, againJob.trans sameJob, againTime.trans sameTime⟩

theorem keeps_finishCronRun
    (store : CronStore)
    (runId : String)
    (state : CronRunState)
    (finishedAt : ℕ)
    (exitCode : Option ℤ)
    (error : Option String) :
    store.Keeps (store.finishCronRun runId state finishedAt exitCode error).2 := by
  refine ⟨fun _ => rfl, fun run member => ?_⟩
  refine ⟨_, mem_finishCronRun.mpr ⟨run, member, rfl⟩, ?_⟩
  split <;> exact ⟨rfl, rfl⟩

theorem keeps_startCronRun
    (store : CronStore)
    (runId : String)
    (startedAt : ℕ)
    (deploymentId containerName address : String) :
    store.Keeps
      (store.startCronRun runId startedAt deploymentId containerName address).2 := by
  refine ⟨fun _ => rfl, fun run member => ?_⟩
  refine ⟨_, mem_startCronRun.mpr ⟨run, member, rfl⟩, ?_⟩
  split <;> exact ⟨rfl, rfl⟩

theorem keeps_claimCronRun
    {project runId : String}
    {job : CronJob}
    {scheduledAt : Option ℕ}
    {timestamp : ℕ}
    {outcome : CronClaimOutcome}
    (claims : store.claimCronRun project job cause scheduledAt runId timestamp =
      .ok (outcome, next)) :
    store.Keeps next := by
  rcases claimCronRun_cases claims with
    ⟨_, _, rfl⟩ | ⟨_, _, rfl⟩ | ⟨_, _, _, _, runs, _, scheduler⟩
  · exact .refl _
  · exact ⟨fun _ => nextDueAt_countOverlap, fun run member => ⟨run, member, rfl, rfl⟩⟩
  · refine ⟨fun other => by rw [nextDueAt, nextDueAt, scheduler], fun run member => ?_⟩
    exact ⟨run, runs ▸ List.mem_append_left _ member, rfl, rfl⟩

theorem keeps_leased
    (store : CronStore)
    (runId : String)
    (leaseError : Option String)
    (timestamp : ℕ) :
    store.Keeps (store.leased runId leaseError timestamp) := by
  cases leaseError with
  | none => exact .refl store
  | some error => exact keeps_finishCronRun _ _ _ _ _ _

theorem keeps_manualRun
    (config : SchedulerConfig)
    (store : CronStore)
    (job : CronJob)
    (runId : String)
    (timestamp : ℕ)
    (leaseError : Option String) :
    store.Keeps (Scheduler.manualRun config store job runId timestamp leaseError) := by
  unfold Scheduler.manualRun
  split
  · exact .refl store
  · split
    · rename_i claims
      exact (keeps_claimCronRun claims).trans (keeps_leased _ _ _ _)
    · rename_i claims
      exact keeps_claimCronRun claims
    · exact .refl store

end CronStore

namespace TickStep

/-- The run of the job that a tick looks at has been claimed or not, for this tick. -/
def isPastClaim : TickStep → Bool
  | .lease _ _ => true
  | .setNextDue _ => true
  | _ => false

/-- What a tick has read of a job is still stored. -/
def Agrees (store : CronStore) (job : CronJob) (now : ℕ) : TickStep → Prop
  | .evaluate => True
  | .initialise => store.nextDueAt job = none
  | .claim dueAt => store.nextDueAt job = some dueAt ∧ dueAt ≤ now
  | .lease dueAt _ => store.nextDueAt job = some dueAt ∧ dueAt ≤ now
  | .setNextDue dueAt => store.nextDueAt job = some dueAt ∧ dueAt ≤ now

end TickStep

/-- A tick agrees with the store: what it has read stands, the jobs that it has passed are due
later, and it has claimed at most one run of each job that it has reached. -/
structure Tick.Proper (store : CronStore) (tick : Tick) : Prop where
  distinct : (tick.specs.map CronJobSpec.job).Nodup
  reads : ∀ spec rest, tick.specs = spec :: rest → tick.step.Agrees store spec.job tick.now
  passed : ∀ job ∈ tick.listed, job ∈ tick.specs.map CronJobSpec.job ∨
    ∃ dueAt, store.nextDueAt job = some dueAt ∧ tick.now < dueAt
  once : tick.claimed.Nodup
  reached : ∀ job ∈ tick.claimed, ∀ spec rest, tick.specs = spec :: rest →
    job ∉ rest.map CronJobSpec.job ∧ (job = spec.job → tick.step.isPastClaim = true)

/-- The claimed times of each job grow, are stored, and are not after the job's due time. -/
structure Scheduler.Sound (scheduler : Scheduler) : Prop where
  increasing : scheduler.history.Pairwise fun earlier later =>
    earlier.1 = later.1 → earlier.2 < later.2
  bounded : ∀ claim ∈ scheduler.history,
    ∃ dueAt, scheduler.store.nextDueAt claim.1 = some dueAt ∧ claim.2 ≤ dueAt
  stored : ∀ claim ∈ scheduler.history,
    ∃ run ∈ scheduler.store.runs, run.job = claim.1 ∧ run.scheduledAt = some claim.2
  ticking : ∀ tick, scheduler.tick = some tick → tick.Proper scheduler.store

theorem TickStep.Agrees.keeps
    {store next : CronStore}
    {job : CronJob}
    {step : TickStep}
    (agrees : step.Agrees store job now)
    (keeps : store.Keeps next) :
    step.Agrees next job now := by
  cases step with
  | evaluate => trivial
  | initialise => exact (keeps.due job).trans agrees
  | claim dueAt => exact ⟨(keeps.due job).trans agrees.1, agrees.2⟩
  | lease dueAt runId => exact ⟨(keeps.due job).trans agrees.1, agrees.2⟩
  | setNextDue dueAt => exact ⟨(keeps.due job).trans agrees.1, agrees.2⟩

theorem Tick.Proper.keeps
    {store next : CronStore}
    {tick : Tick}
    (proper : tick.Proper store)
    (keeps : store.Keeps next) :
    tick.Proper next where
  distinct := proper.distinct
  reads spec rest specs := (proper.reads spec rest specs).keeps keeps
  passed job listed := by
    refine (proper.passed job listed).imp_right ?_
    rintro ⟨dueAt, due, later⟩
    exact ⟨dueAt, (keeps.due job).trans due, later⟩
  once := proper.once
  reached := proper.reached

/-- Whoever else works on the store leaves the scheduler sound. -/
theorem Scheduler.Sound.keeps
    {scheduler : Scheduler}
    {store : CronStore}
    (sound : scheduler.Sound)
    (keeps : scheduler.store.Keeps store) :
    Scheduler.Sound { scheduler with store := store } where
  increasing := sound.increasing
  bounded claim member := by
    obtain ⟨dueAt, due, bound⟩ := sound.bounded claim member
    exact ⟨dueAt, (keeps.due claim.1).trans due, bound⟩
  stored claim member := by
    obtain ⟨run, runMember, sameJob, sameTime⟩ := sound.stored claim member
    obtain ⟨kept, keptMember, keptJob, keptTime⟩ := keeps.runs run runMember
    exact ⟨kept, keptMember, keptJob.trans sameJob, keptTime.trans sameTime⟩
  ticking tick isTicking := (sound.ticking tick isTicking).keeps keeps

section Forward

variable {config : SchedulerConfig} {scheduler next : Scheduler} {tick : Tick}
variable {spec : CronJobSpec} {rest : List CronJobSpec} {store : CronStore}

/-- A tick passes a job that is due later. -/
theorem Tick.Proper.pass
    (proper : tick.Proper scheduler.store)
    (specs : tick.specs = spec :: rest)
    (later : ∃ dueAt, store.nextDueAt spec.job = some dueAt ∧ tick.now < dueAt)
    (others : ∀ job, job ≠ spec.job → store.nextDueAt job = scheduler.store.nextDueAt job) :
    Tick.Proper store { tick with specs := rest, step := .evaluate } := by
  obtain ⟨distinct, _, passed, once, reached⟩ := proper
  rw [specs, List.map_cons] at distinct passed
  refine ⟨distinct.of_cons, fun _ _ _ => trivial, fun job listed => ?_, once, ?_⟩
  · by_cases same : job = spec.job
    · exact Or.inr (same ▸ later)
    · rcases passed job listed with waiting | ⟨dueAt, due, after⟩
      · exact Or.inl ((List.mem_cons.mp waiting).resolve_left same)
      · exact Or.inr ⟨dueAt, (others job same).trans due, after⟩
  · intro job claimed following others isRest
    have absent := (reached job claimed spec rest specs).1
    change rest = following :: others at isRest
    rw [isRest, List.map_cons, List.mem_cons, not_or] at absent
    exact ⟨absent.2, fun same => absurd same absent.1⟩

/-- A tick goes on with the job that it looks at. -/
theorem Tick.Proper.goOn
    {step : TickStep}
    (proper : tick.Proper store)
    (specs : tick.specs = spec :: rest)
    (agrees : step.Agrees store spec.job tick.now)
    (claimed : tick.step.isPastClaim = true → step.isPastClaim = true) :
    Tick.Proper store { tick with step := step } where
  distinct := proper.distinct
  reads other others isSpecs := by
    obtain ⟨rfl, rfl⟩ := List.cons.inj (specs.symm.trans isSpecs)
    exact agrees
  passed := proper.passed
  once := proper.once
  reached job member other others isSpecs :=
    (proper.reached job member other others isSpecs).imp_right fun before same =>
      claimed (before same)

/-- A tick that goes on leaves the scheduler sound. -/
theorem Scheduler.Sound.withTick
    (sound : scheduler.Sound)
    (proper : tick.Proper scheduler.store) :
    Scheduler.Sound { scheduler with tick := some tick } :=
  ⟨sound.increasing, sound.bounded, sound.stored, by
    rintro other isTick
    exact Option.some.inj isTick ▸ proper⟩

/-- Recording a later due time and passing the job leaves the scheduler sound. -/
theorem Scheduler.Sound.setNextDue
    {nextDue : ℕ}
    (sound : scheduler.Sound)
    (ticking : scheduler.tick = some tick)
    (specs : tick.specs = spec :: rest)
    (after : tick.now < nextDue)
    (grows : ∀ dueAt, scheduler.store.nextDueAt spec.job = some dueAt → dueAt ≤ nextDue) :
    Scheduler.Sound { scheduler with
      store := Scheduler.setNextDue scheduler.store spec.job tick.now (.ok nextDue)
      tick := some { tick with specs := rest, step := .evaluate } } where
  increasing := sound.increasing
  bounded claim member := by
    obtain ⟨dueAt, due, bound⟩ := sound.bounded claim member
    simp only [Scheduler.setNextDue, CronStore.nextDueAt_setCronSchedulerState]
    split
    · rename_i same
      exact ⟨nextDue, rfl, bound.trans (grows dueAt (same ▸ due))⟩
    · exact ⟨dueAt, due, bound⟩
  stored := sound.stored
  ticking other isTick := by
    obtain rfl := Option.some.inj isTick
    refine (sound.ticking tick ticking).pass specs ⟨nextDue, ?_, after⟩ fun job different => ?_
    · simp [Scheduler.setNextDue, CronStore.nextDueAt_setCronSchedulerState]
    · simp [Scheduler.setNextDue, CronStore.nextDueAt_setCronSchedulerState, different]

/-- Schedules always have a later time. -/
def SchedulerConfig.Forward (config : SchedulerConfig) : Prop :=
  ∀ schedule timezone time, ∃ next, config.nextDueAt schedule timezone time = .ok next ∧
    time < next

theorem SchedulerConfig.Forward.followingDue
    (forward : config.Forward)
    (spec : CronJobSpec)
    (dueAt now : ℕ) :
    ∃ next, Scheduler.followingDue config spec dueAt now = .ok next ∧ now < next := by
  obtain ⟨natural, isNatural, _⟩ := forward spec.schedule spec.timezone dueAt
  simp only [Scheduler.followingDue, isNatural]
  split
  · rename_i later
    exact ⟨natural, rfl, later⟩
  · exact forward spec.schedule spec.timezone now

/-- A claim at the due time of a job is later than the earlier claims of the job. -/
theorem Scheduler.Sound.claimed
    {dueAt : ℕ}
    {run : CronRun}
    (sound : scheduler.Sound)
    (ticking : scheduler.tick = some tick)
    (specs : tick.specs = spec :: rest)
    (step : tick.step = .claim dueAt)
    (claims : scheduler.store.claimCronRun config.project spec.job .scheduled (some dueAt) runId
      tick.now = .ok (.claimed run, store)) :
    Scheduler.Sound
      { store := store
        tick := some { tick with
          step := .lease dueAt run.runId
          claimed := tick.claimed ++ [spec.job] }
        history := scheduler.history ++ [(spec.job, dueAt)] } := by
  have proper := sound.ticking tick ticking
  have keeps := CronStore.keeps_claimCronRun claims
  have kept := sound.keeps keeps
  obtain ⟨due, notLater⟩ : scheduler.store.nextDueAt spec.job = some dueAt ∧ dueAt ≤ tick.now := by
    have agrees := proper.reads spec rest specs
    rwa [step] at agrees
  have dueKept : store.nextDueAt spec.job = some dueAt := (keeps.due spec.job).trans due
  rcases CronStore.claimCronRun_cases claims with
    ⟨_, impossible, _⟩ | ⟨_, impossible, _⟩ | ⟨_, unscheduled, _, _, runs, _, _⟩
  · cases impossible
  · cases impossible
  refine ⟨?_, ?_, ?_, ?_⟩
  · rw [List.pairwise_append]
    refine ⟨sound.increasing, List.pairwise_singleton _ _, ?_⟩
    rintro claim member last isLast same
    obtain rfl := List.mem_singleton.mp isLast
    obtain ⟨bound, isBound, before⟩ := sound.bounded claim member
    rw [same, due] at isBound
    obtain rfl := Option.some.inj isBound
    refine lt_of_le_of_ne before fun equal => ?_
    obtain ⟨old, oldMember, oldJob, oldTime⟩ := sound.stored claim member
    have checked := List.find?_eq_none.mp unscheduled old oldMember
    simp [oldJob, same, oldTime, equal] at checked
  · intro claim member
    rcases List.mem_append.mp member with old | new
    · exact kept.bounded claim old
    · rw [List.mem_singleton.mp new]
      exact ⟨dueAt, dueKept, le_rfl⟩
  · intro claim member
    rcases List.mem_append.mp member with old | new
    · exact kept.stored claim old
    · rw [List.mem_singleton.mp new]
      exact ⟨_, runs ▸ List.mem_append_right _ List.mem_cons_self, rfl, rfl⟩
  · intro other isTick
    obtain rfl := Option.some.inj isTick
    have unclaimed : spec.job ∉ tick.claimed := by
      intro claimed
      have past := (proper.reached spec.job claimed spec rest specs).2 rfl
      rw [step] at past
      cases past
    have distinct := proper.distinct
    rw [specs, List.map_cons, List.nodup_cons] at distinct
    have kept := proper.keeps keeps
    refine ⟨kept.distinct, ?_, kept.passed, ?_, ?_⟩
    · intro other others isSpecs
      obtain ⟨rfl, rfl⟩ := List.cons.inj (specs.symm.trans isSpecs)
      exact ⟨dueKept, notLater⟩
    · rw [List.nodup_append]
      refine ⟨proper.once, List.nodup_singleton _, ?_⟩
      intro job member last isLast same
      rw [List.mem_singleton.mp isLast] at same
      exact unclaimed (same ▸ member)
    · intro job member other others isSpecs
      obtain ⟨rfl, rfl⟩ := List.cons.inj (specs.symm.trans isSpecs)
      refine ⟨?_, fun _ => rfl⟩
      rcases List.mem_append.mp member with old | new
      · exact (proper.reached job old spec rest specs).1
      · rw [List.mem_singleton.mp new]
        exact distinct.1

/-- Every section of a tick leaves the scheduler sound. -/
theorem Scheduler.Sound.proceed
    (forward : config.Forward)
    (sound : scheduler.Sound)
    (ticking : scheduler.tick = some tick)
    (specs : tick.specs = spec :: rest)
    (leaseError : Option String) :
    (scheduler.proceed config tick spec rest leaseError).Sound := by
  have proper := sound.ticking tick ticking
  have agrees := proper.reads spec rest specs
  have refused : ∀ {dueAt : ℕ} {store : CronStore}, tick.step = .claim dueAt →
      scheduler.store.Keeps store →
      Scheduler.Sound { scheduler with
        store := store
        tick := some { tick with step := .setNextDue dueAt } } := by
    intro dueAt store step keeps
    rw [step] at agrees
    have stands : (TickStep.setNextDue dueAt).Agrees scheduler.store spec.job tick.now := agrees
    exact (sound.keeps keeps).withTick
      ((proper.keeps keeps).goOn specs (stands.keeps keeps) fun _ => rfl)
  unfold Scheduler.proceed
  cases step : tick.step with
  | evaluate =>
      simp only
      split
      · rename_i unset
        exact sound.withTick (proper.goOn specs unset (by simp [step, TickStep.isPastClaim]))
      · rename_i dueAt due
        split
        · rename_i later
          exact sound.withTick (proper.pass specs ⟨dueAt, due, later⟩ fun _ _ => rfl)
        · rename_i isDue
          exact sound.withTick (proper.goOn specs ⟨due, not_lt.mp isDue⟩
            (by simp [step, TickStep.isPastClaim]))
  | initialise =>
      rw [step] at agrees
      obtain ⟨nextDue, isNext, after⟩ := forward spec.schedule spec.timezone tick.now
      simp only [isNext]
      refine sound.setNextDue ticking specs after fun dueAt due => ?_
      rw [show scheduler.store.nextDueAt spec.job = none from agrees] at due
      cases due
  | claim dueAt =>
      simp only
      split
      · rename_i claims
        exact sound.claimed ticking specs step claims
      · rename_i claims
        exact refused step (CronStore.keeps_claimCronRun claims)
      · rename_i claims
        exact refused step (CronStore.keeps_claimCronRun claims)
      · exact refused step (.refl _)
  | lease dueAt runId =>
      rw [step] at agrees
      have keeps := CronStore.keeps_leased scheduler.store runId leaseError tick.now
      refine (sound.keeps keeps).withTick ((proper.keeps keeps).goOn specs ?_ fun _ => rfl)
      exact ⟨(keeps.due spec.job).trans agrees.1, agrees.2⟩
  | setNextDue dueAt =>
      rw [step] at agrees
      obtain ⟨nextDue, isNext, after⟩ := forward.followingDue spec dueAt tick.now
      simp only [isNext]
      refine sound.setNextDue ticking specs after fun earlier due => ?_
      obtain rfl := Option.some.inj (agrees.1.symm.trans due)
      exact agrees.2.trans after.le

/-- A tick begins with every installed job before it. -/
theorem Tick.proper_begin (store : CronStore) (now : ℕ) :
    Tick.Proper store
      ⟨now, store.cronSpecs.map CronJobSpec.job, store.cronSpecs, .evaluate, []⟩ :=
  ⟨store.cronSpecs_nodup, fun _ _ _ => trivial, fun _ listed => Or.inl listed, List.nodup_nil,
    by simp⟩

theorem Scheduler.Sound.advance
    {event : SchedulerEvent}
    (forward : config.Forward)
    (sound : scheduler.Sound)
    (advanced : scheduler.advance config event = some next) :
    next.Sound := by
  cases event with
  | beginTick now =>
      simp only [Scheduler.advance] at advanced
      split at advanced
      · obtain rfl := Option.some.inj advanced
        exact sound.withTick (Tick.proper_begin _ now)
      · cases advanced
  | proceed leaseError =>
      simp only [Scheduler.advance] at advanced
      split at advanced
      · cases advanced
      · rename_i tick ticking
        split at advanced
        · cases advanced
        · rename_i spec rest specs
          obtain rfl := Option.some.inj advanced
          exact sound.proceed forward ticking specs leaseError
  | manualRun job runId timestamp leaseError =>
      obtain rfl := Option.some.inj advanced
      exact sound.keeps (CronStore.keeps_manualRun _ _ _ _ _ _)
  | applySpec spec =>
      obtain rfl := Option.some.inj advanced
      exact sound.keeps ⟨fun _ => rfl, fun run member => ⟨run, member, rfl, rfl⟩⟩
  | removeSpec job =>
      obtain rfl := Option.some.inj advanced
      exact sound.keeps ⟨fun _ => rfl, fun run member => ⟨run, member, rfl, rfl⟩⟩
  | startRun runId startedAt containerName address =>
      obtain rfl := Option.some.inj advanced
      exact sound.keeps (CronStore.keeps_startCronRun _ _ _ _ _ _)
  | finishRun runId state finishedAt exitCode error =>
      obtain rfl := Option.some.inj advanced
      exact sound.keeps (CronStore.keeps_finishCronRun _ _ _ _ _ _)
  | crash =>
      obtain rfl := Option.some.inj advanced
      exact ⟨sound.increasing, sound.bounded, sound.stored, by simp⟩

end Forward

/-- If schedules always have a later time, then the scheduled times that are claimed for a job
only grow, a tick claims at most one run of each job, and after a tick every job that it listed
is due later than the tick. -/
theorem scheduled_times_move_forward
    (config : SchedulerConfig)
    (forward : config.Forward)
    (store : CronStore)
    (scheduler : Scheduler)
    (reaches : (schedulerMachine config).Reaches (fun _ _ => True) ⟨store, none, []⟩
      scheduler) :
    (scheduler.history.Pairwise fun earlier later =>
        earlier.1 = later.1 → earlier.2 < later.2) ∧
      (∀ tick, scheduler.tick = some tick → tick.claimed.Nodup) ∧
      ∀ tick, scheduler.tick = some tick → tick.specs = [] → ∀ job ∈ tick.listed,
        ∃ dueAt, scheduler.store.nextDueAt job = some dueAt ∧ tick.now < dueAt := by
  have sound : scheduler.Sound := by
    refine reaches.invariant ⟨List.Pairwise.nil, by simp, by simp, by simp⟩ ?_
    exact fun _ _ _ sound _ advanced => sound.advance forward advanced
  refine ⟨sound.increasing, fun tick ticking => (sound.ticking tick ticking).once, ?_⟩
  intro tick ticking done job listed
  have passed := (sound.ticking tick ticking).passed job listed
  rw [done] at passed
  exact passed.resolve_left (by simp)

/-- A job that is due every minute. -/
def everyMinute : SchedulerConfig where
  project := "p"
  nextDueAt := fun _ _ time => .ok ((time / 60 + 1) * 60)
  scheduledRunId := fun job dueAt => job.service ++ "/" ++ job.cronName ++ "@" ++ toString dueAt

/-- A job is installed and runs; the agent crashes before it records the next due time; the
clock steps back and forward again. -/
def crashedTick : List SchedulerEvent :=
  [.applySpec ⟨⟨"web", "sync"⟩, 1, "h", "* * * * *", "UTC", 30⟩,
    .beginTick 10, .proceed none, .proceed none,
    .beginTick 61, .proceed none, .proceed none, .crash,
    .finishRun "web/sync@60" .failed 62 none none,
    .beginTick 30, .proceed none,
    .beginTick 65, .proceed none, .proceed none, .proceed none,
    .removeSpec ⟨"web", "sync"⟩,
    .applySpec ⟨⟨"web", "sync"⟩, 2, "h", "* * * * *", "UTC", 30⟩,
    .beginTick 200, .proceed none, .proceed none, .proceed none, .proceed none]

theorem scheduled_times_move_forward_crashedTick :
    everyMinute.Forward ∧
    ∃ scheduler,
      (schedulerMachine everyMinute).Reaches (fun _ _ => True) ⟨.empty, none, []⟩ scheduler ∧
      scheduler.history = [(⟨"web", "sync"⟩, 60), (⟨"web", "sync"⟩, 120)] ∧
      scheduler.store.nextDueAt ⟨"web", "sync"⟩ = some 240 ∧
      scheduler.history.Pairwise fun earlier later =>
        earlier.1 = later.1 → earlier.2 < later.2 := by
  have forward : everyMinute.Forward := by
    intro schedule timezone time
    refine ⟨(time / 60 + 1) * 60, rfl, ?_⟩
    omega
  have ran : (((schedulerMachine everyMinute).checked fun _ _ => true).run ⟨.empty, none, []⟩
      crashedTick).map (fun scheduler =>
        (scheduler.history, scheduler.store.nextDueAt ⟨"web", "sync"⟩)) =
          some ([(⟨"web", "sync"⟩, 60), (⟨"web", "sync"⟩, 120)], some 240) := by
    decide
  obtain ⟨scheduler, reached, observed⟩ := Option.map_eq_some_iff.mp ran
  obtain ⟨history, due⟩ := Prod.mk.inj observed
  have reaches : (schedulerMachine everyMinute).Reaches (fun _ _ => True) ⟨.empty, none, []⟩
      scheduler := Machine.reaches_of_checked reached fun _ _ _ => trivial
  exact ⟨forward, scheduler, reaches, history, due,
    (scheduled_times_move_forward everyMinute forward _ scheduler reaches).1⟩

end Agent
end Jiji
