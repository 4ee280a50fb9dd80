import Jiji.Agent.CronSchedule

/-!
# Occurrences of the installed schedule

The time at which a job is due is stored apart from its specification.  This module dates
the events of a scheduler, remembers when the installed schedule of each job was installed,
and follows the stored due times through installations, removals and ticks.
-/

namespace Jiji
namespace Agent

open Control

/-- A scheduler with a clock and the moments at which the installed schedules came in. -/
structure DatedScheduler where
  scheduler : Scheduler
  clock : ℕ
  installedAt : CronJob → ℕ

structure DatedEvent where
  time : ℕ
  event : SchedulerEvent

/-- Two specifications with the same schedule in the same time zone. -/
def CronJobSpec.SameSchedule (left right : CronJobSpec) : Prop :=
  left.schedule = right.schedule ∧ left.timezone = right.timezone

instance (left right : CronJobSpec) : Decidable (left.SameSchedule right) :=
  inferInstanceAs (Decidable (_ ∧ _))

/-- A job is installed with the schedule of a specification. -/
def CronStore.HasSchedule (store : CronStore) (spec : CronJobSpec) : Prop :=
  ∃ installed ∈ store.cronSpec spec.job, installed.SameSchedule spec

instance (store : CronStore) (spec : CronJobSpec) : Decidable (store.HasSchedule spec) :=
  inferInstanceAs (Decidable (∃ installed ∈ store.cronSpec spec.job, installed.SameSchedule spec))

namespace DatedScheduler

/-- A new schedule is installed at the time of its request. -/
def moments (dated : DatedScheduler) (time : ℕ) : SchedulerEvent → CronJob → ℕ
  | .applySpec spec =>
      if dated.scheduler.store.HasSchedule spec then dated.installedAt
      else Function.update dated.installedAt spec.job time
  | _ => dated.installedAt

/-- The clock of a tick is the time at which it begins. -/
def onTime (time : ℕ) : SchedulerEvent → Bool
  | .beginTick now => now = time
  | _ => true

/-- An event at a time that is not before the last one. -/
def advance (config : SchedulerConfig) (dated : DatedScheduler) (event : DatedEvent) :
    Option DatedScheduler :=
  if dated.clock ≤ event.time ∧ onTime event.time event.event = true then
    (dated.scheduler.advance config event.event).map fun next =>
      ⟨next, event.time, dated.moments event.time event.event⟩
  else none

/-- A tick under way has not passed a job yet. -/
def Awaits (dated : DatedScheduler) (job : CronJob) : Prop :=
  ∃ tick ∈ dated.scheduler.tick, ∃ spec ∈ tick.specs, spec.job = job

/-- A new schedule comes in only for a job without a stored due time, and no schedule comes
in or goes while a tick still has its job before it. -/
def Undisturbed (dated : DatedScheduler) (event : DatedEvent) : Prop :=
  match event.event with
  | .applySpec spec =>
      dated.scheduler.store.HasSchedule spec ∨
        dated.scheduler.store.nextDueAt spec.job = none ∧ ¬ dated.Awaits spec.job
  | .removeSpec job => ¬ dated.Awaits job
  | _ => True

instance (dated : DatedScheduler) (job : CronJob) : Decidable (dated.Awaits job) :=
  inferInstanceAs (Decidable (∃ tick ∈ dated.scheduler.tick, ∃ spec ∈ tick.specs, spec.job = job))

instance (dated : DatedScheduler) : (event : DatedEvent) → Decidable (dated.Undisturbed event)
  | ⟨_, .applySpec spec⟩ => inferInstanceAs (Decidable (dated.scheduler.store.HasSchedule spec ∨
      dated.scheduler.store.nextDueAt spec.job = none ∧ ¬ dated.Awaits spec.job))
  | ⟨_, .removeSpec job⟩ => inferInstanceAs (Decidable (¬ dated.Awaits job))
  | ⟨_, .beginTick _⟩ => isTrue trivial
  | ⟨_, .proceed _⟩ => isTrue trivial
  | ⟨_, .manualRun _ _ _ _⟩ => isTrue trivial
  | ⟨_, .startRun _ _ _ _⟩ => isTrue trivial
  | ⟨_, .finishRun _ _ _ _ _⟩ => isTrue trivial
  | ⟨_, .crash⟩ => isTrue trivial

/-- A time is an occurrence of the schedule. -/
def Occurs (config : SchedulerConfig) (spec : CronJobSpec) (time : ℕ) : Prop :=
  ∃ earlier < time, config.nextDueAt spec.schedule spec.timezone earlier = .ok time

/-- A scheduled time is an occurrence of the installed schedule after its installation. -/
def FollowsSchedule (config : SchedulerConfig) (dated : DatedScheduler) (job : CronJob)
    (scheduledAt : ℕ) : Prop :=
  ∃ spec, dated.scheduler.store.cronSpec job = some spec ∧ Occurs config spec scheduledAt ∧
    dated.installedAt job < scheduledAt

end DatedScheduler

/-- The scheduler with dates as a machine. -/
def datedMachine (config : SchedulerConfig) : Machine DatedScheduler DatedEvent where
  advance := DatedScheduler.advance config

/-- The next time of a schedule is strictly later. -/
def SchedulerConfig.Later (config : SchedulerConfig) : Prop :=
  ∀ schedule timezone time next, config.nextDueAt schedule timezone time = .ok next → time < next

namespace DatedScheduler

/-- The stored due times follow the installed schedules, and so does what a tick under way has
listed and read. -/
structure Sound (config : SchedulerConfig) (dated : DatedScheduler) : Prop where
  due : ∀ job spec dueAt, dated.scheduler.store.cronSpec job = some spec →
    dated.scheduler.store.nextDueAt job = some dueAt →
      Occurs config spec dueAt ∧ dated.installedAt job < dueAt
  installed : ∀ job, dated.installedAt job ≤ dated.clock
  listed : ∀ tick, dated.scheduler.tick = some tick → ∀ spec ∈ tick.specs,
    dated.scheduler.store.HasSchedule spec ∧ dated.installedAt spec.job ≤ tick.now
  reads : ∀ tick, dated.scheduler.tick = some tick → ∀ spec rest, tick.specs = spec :: rest →
    tick.step.Agrees dated.scheduler.store spec.job tick.now

section Steps

variable {config : SchedulerConfig} {dated : DatedScheduler} {tick : Tick}
variable {spec : CronJobSpec} {rest : List CronJobSpec} {store : CronStore} {time : ℕ}

theorem occurs_of_sameSchedule
    {left right : CronJobSpec}
    (same : left.SameSchedule right)
    (occurs : Occurs config right time) :
    Occurs config left time := by
  obtain ⟨earlier, before, next⟩ := occurs
  exact ⟨earlier, before, by rwa [same.1, same.2]⟩

/-- Time passes. -/
theorem Sound.wait
    (sound : dated.Sound config)
    (later : dated.clock ≤ time) :
    Sound config { dated with clock := time } :=
  ⟨sound.due, fun job => (sound.installed job).trans later, sound.listed, sound.reads⟩

/-- Whoever else works on the store keeps the due times on schedule. -/
theorem Sound.keeps
    (sound : dated.Sound config)
    (specs : store.specs = dated.scheduler.store.specs)
    (keeps : dated.scheduler.store.Keeps store) :
    Sound config { dated with scheduler := { dated.scheduler with store := store } } where
  due job spec dueAt found stored := by
    rw [CronStore.cronSpec, specs] at found
    exact sound.due job spec dueAt found ((keeps.due job).symm.trans stored)
  installed := sound.installed
  listed tick ticking spec member := by
    obtain ⟨scheduled, past⟩ := sound.listed tick ticking spec member
    refine ⟨?_, past⟩
    simpa only [CronStore.HasSchedule, CronStore.cronSpec, specs] using scheduled
  reads tick ticking spec rest isSpecs := (sound.reads tick ticking spec rest isSpecs).keeps keeps

/-- A tick goes on with the job that it looks at. -/
theorem Sound.goOn
    {claimed : List CronJob}
    {history : List (CronJob × ℕ)}
    (sound : dated.Sound config)
    (ticking : dated.scheduler.tick = some tick)
    (specs : tick.specs = spec :: rest)
    (agrees : step.Agrees dated.scheduler.store spec.job tick.now) :
    Sound config ⟨⟨dated.scheduler.store,
      some { tick with step := step, claimed := claimed }, history⟩, dated.clock,
      dated.installedAt⟩ where
  due := sound.due
  installed := sound.installed
  listed other isTick := by
    obtain rfl := Option.some.inj isTick
    exact sound.listed tick ticking
  reads other isTick first others isSpecs := by
    obtain rfl := Option.some.inj isTick
    obtain ⟨rfl, rfl⟩ := List.cons.inj (specs.symm.trans isSpecs)
    exact agrees

/-- A tick passes the job that it looks at. -/
theorem Sound.pass
    (sound : dated.Sound config)
    (ticking : dated.scheduler.tick = some tick)
    (specs : tick.specs = spec :: rest) :
    Sound config ⟨{ dated.scheduler with
      tick := some { tick with specs := rest, step := .evaluate } }, dated.clock,
      dated.installedAt⟩ where
  due := sound.due
  installed := sound.installed
  listed other isTick first member := by
    obtain rfl := Option.some.inj isTick
    exact sound.listed tick ticking first (specs ▸ List.mem_cons_of_mem _ member)
  reads other isTick first others isSpecs := by
    obtain rfl := Option.some.inj isTick
    trivial

/-- A tick records an occurrence that is later than itself and passes the job. -/
theorem Sound.setNextDue
    {nextDue : Except String ℕ}
    (sound : dated.Sound config)
    (ticking : dated.scheduler.tick = some tick)
    (specs : tick.specs = spec :: rest)
    (occurs : ∀ next, nextDue = .ok next → Occurs config spec next ∧ tick.now < next) :
    Sound config ⟨{ dated.scheduler with
      store := Scheduler.setNextDue dated.scheduler.store spec.job tick.now nextDue
      tick := some { tick with specs := rest, step := .evaluate } }, dated.clock,
      dated.installedAt⟩ := by
  cases nextDue with
  | error error => exact sound.pass ticking specs
  | ok next =>
      obtain ⟨occurs, after⟩ := occurs next rfl
      obtain ⟨⟨installed, isInstalled, same⟩, past⟩ :=
        sound.listed tick ticking spec (specs ▸ List.mem_cons_self)
      refine ⟨?_, sound.installed, (sound.pass ticking specs).listed, ?_⟩
      · intro job other dueAt found stored
        change dated.scheduler.store.cronSpec job = some other at found
        simp only [Scheduler.setNextDue, CronStore.nextDueAt_setCronSchedulerState] at stored
        split at stored
        · rename_i isJob
          subst isJob
          obtain rfl := Option.some.inj stored
          obtain rfl := Option.some.inj (isInstalled.symm.trans found)
          exact ⟨occurs_of_sameSchedule same occurs, past.trans_lt after⟩
        · exact sound.due job other dueAt found stored
      · intro other isTick first others isSpecs
        obtain rfl := Option.some.inj isTick
        trivial

theorem specs_claimCronRun
    {job : CronJob}
    {cause : CronRunCause}
    {scheduledAt : Option ℕ}
    {timestamp : ℕ}
    {outcome : CronClaimOutcome}
    {before after : CronStore}
    (claims : before.claimCronRun project job cause scheduledAt runId timestamp =
      .ok (outcome, after)) :
    after.specs = before.specs := by
  rcases CronStore.claimCronRun_cases claims with
    ⟨_, _, rfl⟩ | ⟨_, _, rfl⟩ | ⟨_, _, _, _, _, specs, _⟩
  · rfl
  · rfl
  · exact specs

theorem specs_leased
    (before : CronStore)
    (runId : String)
    (leaseError : Option String)
    (timestamp : ℕ) :
    (before.leased runId leaseError timestamp).specs = before.specs := by
  cases leaseError with
  | none => rfl
  | some error => rfl

theorem specs_manualRun
    (before : CronStore)
    (job : CronJob)
    (runId : String)
    (timestamp : ℕ)
    (leaseError : Option String) :
    (Scheduler.manualRun config before job runId timestamp leaseError).specs = before.specs := by
  unfold Scheduler.manualRun
  split
  · rfl
  · split
    · rename_i claims
      rw [specs_leased, specs_claimCronRun claims]
    · rename_i claims
      exact specs_claimCronRun claims
    · rfl

/-- The due time after a run is an occurrence that is later than the tick. -/
theorem occurs_followingDue
    {dueAt now next : ℕ}
    (later : config.Later)
    (follows : Scheduler.followingDue config spec dueAt now = .ok next) :
    Occurs config spec next ∧ now < next := by
  unfold Scheduler.followingDue at follows
  split at follows
  · cases follows
  · rename_i natural isNatural
    split at follows
    · rename_i after
      obtain rfl := Except.ok.inj follows
      exact ⟨⟨dueAt, later _ _ _ _ isNatural, isNatural⟩, after⟩
    · exact ⟨⟨now, later _ _ _ _ follows, follows⟩, later _ _ _ _ follows⟩

/-- Every section of a tick keeps the due times on schedule. -/
theorem Sound.proceed
    (later : config.Later)
    (sound : dated.Sound config)
    (ticking : dated.scheduler.tick = some tick)
    (specs : tick.specs = spec :: rest)
    (leaseError : Option String) :
    Sound config { dated with
      scheduler := dated.scheduler.proceed config tick spec rest leaseError } := by
  have agrees := sound.reads tick ticking spec rest specs
  unfold Scheduler.proceed
  cases step : tick.step with
  | evaluate =>
      simp only
      split
      · rename_i unset
        exact sound.goOn ticking specs unset
      · rename_i dueAt due
        split
        · exact sound.pass ticking specs
        · rename_i isDue
          exact sound.goOn ticking specs ⟨due, not_lt.mp isDue⟩
  | initialise =>
      apply sound.setNextDue ticking specs
      intro next isNext
      exact ⟨⟨tick.now, later _ _ _ _ isNext, isNext⟩, later _ _ _ _ isNext⟩
  | claim dueAt =>
      rw [step] at agrees
      have stands : (TickStep.setNextDue dueAt).Agrees dated.scheduler.store spec.job tick.now :=
        agrees
      simp only
      split
      · rename_i run next claims
        have keeps := CronStore.keeps_claimCronRun claims
        exact (sound.keeps (specs_claimCronRun claims) keeps).goOn ticking specs
          (agrees.keeps keeps)
      · rename_i claims
        have keeps := CronStore.keeps_claimCronRun claims
        exact (sound.keeps (specs_claimCronRun claims) keeps).goOn ticking specs
          (stands.keeps keeps)
      · rename_i claims
        have keeps := CronStore.keeps_claimCronRun claims
        exact (sound.keeps (specs_claimCronRun claims) keeps).goOn ticking specs
          (stands.keeps keeps)
      · exact sound.goOn ticking specs stands
  | lease dueAt runId =>
      rw [step] at agrees
      have stands : (TickStep.setNextDue dueAt).Agrees dated.scheduler.store spec.job tick.now :=
        agrees
      have keeps := CronStore.keeps_leased dated.scheduler.store runId leaseError tick.now
      exact (sound.keeps (specs_leased _ _ _ _) keeps).goOn ticking specs (stands.keeps keeps)
  | setNextDue dueAt =>
      apply sound.setNextDue ticking specs
      exact fun next isNext => occurs_followingDue later isNext

/-- A tick that begins now lists the installed jobs. -/
theorem Sound.beginTick (sound : dated.Sound config) :
    Sound config { dated with scheduler := { dated.scheduler with
      tick := some ⟨dated.clock, dated.scheduler.store.cronSpecs.map CronJobSpec.job,
        dated.scheduler.store.cronSpecs, .evaluate, []⟩ } } where
  due := sound.due
  installed := sound.installed
  listed tick isTick spec member := by
    obtain rfl := Option.some.inj isTick
    refine ⟨⟨spec, ?_, rfl, rfl⟩, sound.installed spec.job⟩
    exact CronStore.cronSpec_eq_some_iff.mpr ⟨CronStore.mem_cronSpecs.mp member, rfl⟩
  reads tick isTick spec rest isSpecs := by
    obtain rfl := Option.some.inj isTick
    trivial

theorem Sound.crash (sound : dated.Sound config) :
    Sound config { dated with scheduler := { dated.scheduler with tick := none } } where
  due := sound.due
  installed := sound.installed
  listed tick isTick := by cases isTick
  reads tick isTick := by cases isTick

/-- The schedule of another job stands. -/
theorem hasSchedule_of_cronSpec
    {before after : CronStore}
    (same : after.cronSpec spec.job = before.cronSpec spec.job) :
    after.HasSchedule spec ↔ before.HasSchedule spec := by
  simp only [CronStore.HasSchedule, same]

/-- A job is installed again with the schedule that it has. -/
theorem Sound.reapply
    (sound : dated.Sound config)
    (scheduled : dated.scheduler.store.HasSchedule spec) :
    Sound config { dated with scheduler := { dated.scheduler with
      store := (dated.scheduler.store.applyCronSpec spec).2 } } := by
  obtain ⟨installed, isInstalled, same⟩ := scheduled
  refine ⟨?_, sound.installed, ?_, sound.reads⟩
  · intro job other dueAt found stored
    by_cases isJob : job = spec.job
    · subst isJob
      obtain rfl := Option.some.inj (CronStore.cronSpec_applyCronSpec_self.symm.trans found)
      obtain ⟨occurs, after⟩ := sound.due spec.job installed dueAt isInstalled stored
      exact ⟨occurs_of_sameSchedule ⟨same.1.symm, same.2.symm⟩ occurs, after⟩
    · rw [CronStore.cronSpec_applyCronSpec_of_ne isJob] at found
      exact sound.due job other dueAt found stored
  · intro tick ticking pending member
    obtain ⟨⟨other, isOther, otherSame⟩, past⟩ := sound.listed tick ticking pending member
    refine ⟨?_, past⟩
    by_cases isJob : pending.job = spec.job
    · rw [isJob] at isOther
      obtain rfl := Option.some.inj (isInstalled.symm.trans isOther)
      refine ⟨spec, ?_, same.1.symm.trans otherSame.1, same.2.symm.trans otherSame.2⟩
      rw [isJob]
      exact CronStore.cronSpec_applyCronSpec_self
    · exact (hasSchedule_of_cronSpec (CronStore.cronSpec_applyCronSpec_of_ne isJob)).mpr
        ⟨other, isOther, otherSame⟩

/-- A new schedule is installed for a job that is not due and that no tick has before it. -/
theorem Sound.install
    (sound : dated.Sound config)
    (unset : dated.scheduler.store.nextDueAt spec.job = none)
    (unawaited : ¬ dated.Awaits spec.job) :
    Sound config ⟨{ dated.scheduler with
      store := (dated.scheduler.store.applyCronSpec spec).2 }, dated.clock,
      Function.update dated.installedAt spec.job dated.clock⟩ := by
  have elsewhere : ∀ job ≠ spec.job,
      Function.update dated.installedAt spec.job dated.clock job = dated.installedAt job :=
    fun job isOther => Function.update_of_ne isOther _ _
  refine ⟨?_, ?_, ?_, sound.reads⟩
  · intro job other dueAt found stored
    change dated.scheduler.store.nextDueAt job = some dueAt at stored
    have isOther : job ≠ spec.job := by
      rintro rfl
      rw [unset] at stored
      cases stored
    rw [CronStore.cronSpec_applyCronSpec_of_ne isOther] at found
    obtain ⟨occurs, after⟩ := sound.due job other dueAt found stored
    exact ⟨occurs, (elsewhere job isOther).trans_lt after⟩
  · intro job
    by_cases isJob : job = spec.job
    · subst isJob
      exact (Function.update_self spec.job dated.clock dated.installedAt).le
    · exact (elsewhere job isJob).trans_le (sound.installed job)
  · intro tick ticking pending member
    have isOther : pending.job ≠ spec.job := fun same =>
      unawaited ⟨tick, ticking, pending, member, same⟩
    obtain ⟨scheduled, past⟩ := sound.listed tick ticking pending member
    exact ⟨(hasSchedule_of_cronSpec (CronStore.cronSpec_applyCronSpec_of_ne isOther)).mpr
      scheduled, (elsewhere pending.job isOther).trans_le past⟩

/-- A job that no tick has before it is removed. -/
theorem Sound.remove
    {job : CronJob}
    (sound : dated.Sound config)
    (unawaited : ¬ dated.Awaits job) :
    Sound config { dated with scheduler := { dated.scheduler with
      store := (dated.scheduler.store.removeCronSpec job).2 } } := by
  refine ⟨?_, sound.installed, ?_, sound.reads⟩
  · intro other installed dueAt found stored
    by_cases isJob : other = job
    · rw [isJob, CronStore.cronSpec_removeCronSpec_self] at found
      cases found
    · rw [CronStore.cronSpec_removeCronSpec_of_ne isJob] at found
      exact sound.due other installed dueAt found stored
  · intro tick ticking pending member
    have isOther : pending.job ≠ job := fun same =>
      unawaited ⟨tick, ticking, pending, member, same⟩
    obtain ⟨scheduled, past⟩ := sound.listed tick ticking pending member
    exact ⟨(hasSchedule_of_cronSpec (CronStore.cronSpec_removeCronSpec_of_ne isOther)).mpr
      scheduled, past⟩

/-- What happens now keeps the due times on schedule. -/
theorem Sound.happens
    (later : config.Later)
    (sound : dated.Sound config)
    (undisturbed : dated.Undisturbed ⟨dated.clock, event⟩)
    (timely : onTime dated.clock event = true)
    (advanced : dated.scheduler.advance config event = some next) :
    Sound config ⟨next, dated.clock, dated.moments dated.clock event⟩ := by
  cases event with
  | beginTick now =>
      obtain rfl : now = dated.clock := by simpa [onTime] using timely
      simp only [Scheduler.advance] at advanced
      split at advanced
      · obtain rfl := Option.some.inj advanced
        exact sound.beginTick
      · cases advanced
  | proceed leaseError =>
      simp only [Scheduler.advance] at advanced
      split at advanced
      · cases advanced
      · rename_i tick ticking
        split at advanced
        · cases advanced
        · rename_i spec rest specs
          obtain rfl := Option.some.inj advanced
          exact sound.proceed later ticking specs leaseError
  | manualRun job runId timestamp leaseError =>
      obtain rfl := Option.some.inj advanced
      exact sound.keeps (specs_manualRun _ _ _ _ _) (CronStore.keeps_manualRun _ _ _ _ _ _)
  | applySpec spec =>
      obtain rfl := Option.some.inj advanced
      by_cases scheduled : dated.scheduler.store.HasSchedule spec
      · simp only [moments, if_pos scheduled]
        exact sound.reapply scheduled
      · simp only [moments, if_neg scheduled]
        obtain ⟨unset, unawaited⟩ := undisturbed.resolve_left scheduled
        exact sound.install unset unawaited
  | removeSpec job =>
      obtain rfl := Option.some.inj advanced
      exact sound.remove undisturbed
  | startRun runId startedAt containerName address =>
      obtain rfl := Option.some.inj advanced
      exact sound.keeps rfl (CronStore.keeps_startCronRun _ _ _ _ _ _)
  | finishRun runId state finishedAt exitCode error =>
      obtain rfl := Option.some.inj advanced
      exact sound.keeps rfl (CronStore.keeps_finishCronRun _ _ _ _ _ _)
  | crash =>
      obtain rfl := Option.some.inj advanced
      exact sound.crash

theorem Sound.advance
    {next : DatedScheduler}
    (later : config.Later)
    (sound : dated.Sound config)
    (undisturbed : dated.Undisturbed event)
    (advanced : dated.advance config event = some next) :
    next.Sound config := by
  unfold DatedScheduler.advance at advanced
  split at advanced
  · rename_i timely
    obtain ⟨scheduler, happened, rfl⟩ := Option.map_eq_some_iff.mp advanced
    exact (sound.wait timely.1).happens later undisturbed timely.2 happened
  · cases advanced

end Steps

end DatedScheduler

/-- Only a tick that has found a job due claims a scheduled time. -/
theorem Scheduler.due_of_claim
    {scheduler next : Scheduler}
    {event : SchedulerEvent}
    {job : CronJob}
    {dueAt : ℕ}
    (advanced : scheduler.advance config event = some next)
    (claims : next.history = scheduler.history ++ [(job, dueAt)]) :
    ∃ tick spec rest, scheduler.tick = some tick ∧ tick.specs = spec :: rest ∧
      tick.step = .claim dueAt ∧ spec.job = job := by
  have kept : next.history ≠ scheduler.history := by simp [claims]
  cases event with
  | proceed leaseError =>
      simp only [Scheduler.advance] at advanced
      split at advanced
      · cases advanced
      · rename_i tick ticking
        split at advanced
        · cases advanced
        · rename_i spec rest specs
          obtain rfl := Option.some.inj advanced
          refine ⟨tick, spec, rest, ticking, specs, ?_⟩
          unfold Scheduler.proceed at claims kept
          cases step : tick.step with
          | claim readAt =>
              simp only [step] at claims kept
              split at claims
              · obtain ⟨rfl, rfl⟩ := Prod.mk.inj (List.singleton_inj.mp
                  (List.append_cancel_left claims))
                exact ⟨rfl, rfl⟩
              all_goals simp at claims
          | evaluate =>
              simp only [step] at claims
              split at claims
              · simp at claims
              · split at claims <;> simp at claims
          | initialise => simp [step] at claims
          | lease readAt runId => simp [step] at claims
          | setNextDue readAt => simp [step] at claims
  | beginTick now =>
      simp only [Scheduler.advance] at advanced
      split at advanced
      · obtain rfl := Option.some.inj advanced
        exact absurd rfl kept
      · cases advanced
  | manualRun job runId timestamp leaseError =>
      obtain rfl := Option.some.inj advanced
      exact absurd rfl kept
  | applySpec spec =>
      obtain rfl := Option.some.inj advanced
      exact absurd rfl kept
  | removeSpec job =>
      obtain rfl := Option.some.inj advanced
      exact absurd rfl kept
  | startRun runId startedAt containerName address =>
      obtain rfl := Option.some.inj advanced
      exact absurd rfl kept
  | finishRun runId state finishedAt exitCode error =>
      obtain rfl := Option.some.inj advanced
      exact absurd rfl kept
  | crash =>
      obtain rfl := Option.some.inj advanced
      exact absurd rfl kept

/-- If new schedules come in only for jobs without a stored due time, and no schedule comes in
or goes while a tick has its job before it, every claimed time is an occurrence of the
installed schedule after its installation. -/
theorem scheduled_runs_follow_schedule
    (config : SchedulerConfig)
    (later : config.Later)
    (store : CronStore)
    (clock : ℕ)
    (installedAt : CronJob → ℕ)
    (unset : ∀ job, store.nextDueAt job = none)
    (past : ∀ job, installedAt job ≤ clock)
    (before next : DatedScheduler)
    (event : DatedEvent)
    (job : CronJob)
    (scheduledAt : ℕ)
    (reaches : (datedMachine config).Reaches DatedScheduler.Undisturbed
      ⟨⟨store, none, []⟩, clock, installedAt⟩ before)
    (advanced : (datedMachine config).advance before event = some next)
    (claims : next.scheduler.history = before.scheduler.history ++ [(job, scheduledAt)]) :
    before.FollowsSchedule config job scheduledAt := by
  have sound : before.Sound config := by
    refine reaches.invariant ⟨?_, past, ?_, ?_⟩ ?_
    · intro job spec dueAt _ stored
      rw [unset] at stored
      cases stored
    · intro tick isTick
      cases isTick
    · intro tick isTick
      cases isTick
    · exact fun _ _ _ sound undisturbed advanced => sound.advance later undisturbed advanced
  obtain ⟨scheduler, happened⟩ : ∃ scheduler, before.scheduler.advance config event.event =
      some scheduler ∧ scheduler = next.scheduler := by
    simp only [datedMachine, DatedScheduler.advance] at advanced
    split at advanced
    · obtain ⟨scheduler, happened, rfl⟩ := Option.map_eq_some_iff.mp advanced
      exact ⟨scheduler, happened, rfl⟩
    · cases advanced
  obtain ⟨tick, spec, rest, ticking, specs, step, rfl⟩ :=
    Scheduler.due_of_claim happened.1 (happened.2 ▸ claims)
  obtain ⟨⟨installed, isInstalled, _⟩, _⟩ :=
    sound.listed tick ticking spec (specs ▸ List.mem_cons_self)
  have agrees := sound.reads tick ticking spec rest specs
  rw [step] at agrees
  obtain ⟨occurs, after⟩ := sound.due spec.job installed scheduledAt isInstalled agrees.1
  exact ⟨installed, isInstalled, occurs, after⟩

/-- A schedule that is due every hour, and others that are due every day. -/
def hourlyOrDaily : SchedulerConfig where
  project := "p"
  nextDueAt := fun schedule _ time =>
    if schedule = "0 * * * *" then .ok ((time / 3600 + 1) * 3600)
    else .ok ((time / 86400 + 1) * 86400)
  scheduledRunId := everyMinute.scheduledRunId

def hourlySpec (revision : ℕ) : CronJobSpec :=
  ⟨⟨"web", "sync"⟩, revision, "h", "0 * * * *", "UTC", 30⟩

def dailySpec (revision : ℕ) : CronJobSpec :=
  ⟨⟨"web", "sync"⟩, revision, "d", "0 0 * * *", "UTC", 30⟩

/-- A job is installed every hour and evaluated, it is installed again with a given
specification, and it is found due at the next full hour. -/
def reinstalled (spec : CronJobSpec) : List DatedEvent :=
  [⟨5, .applySpec (hourlySpec 1)⟩, ⟨10, .beginTick 10⟩, ⟨10, .proceed none⟩, ⟨10, .proceed none⟩,
    ⟨20, .applySpec spec⟩, ⟨3600, .beginTick 3600⟩, ⟨3600, .proceed none⟩]

/-- A scheduler of a fresh agent. -/
def freshScheduler : DatedScheduler := ⟨⟨.empty, none, []⟩, 0, fun _ => 0⟩

theorem later_hourlyOrDaily : hourlyOrDaily.Later := by
  intro schedule timezone time next isNext
  simp only [hourlyOrDaily] at isNext
  split at isNext
  · obtain rfl := Except.ok.inj isNext
    omega
  · obtain rfl := Except.ok.inj isNext
    omega

theorem scheduled_runs_follow_schedule_hourly :
    ∃ before next,
      (datedMachine hourlyOrDaily).Reaches DatedScheduler.Undisturbed freshScheduler before ∧
      (datedMachine hourlyOrDaily).advance before ⟨3601, .proceed none⟩ = some next ∧
      next.scheduler.history = before.scheduler.history ++ [(⟨"web", "sync"⟩, 3600)] ∧
      before.FollowsSchedule hourlyOrDaily ⟨"web", "sync"⟩ 3600 := by
  have ran : ((((datedMachine hourlyOrDaily).checked fun dated event =>
      decide (dated.Undisturbed event)).run freshScheduler (reinstalled (hourlySpec 2))).bind
        fun before => ((datedMachine hourlyOrDaily).advance before ⟨3601, .proceed none⟩).map
          fun next => (before.scheduler.history, next.scheduler.history)) =
      some ([], [(⟨"web", "sync"⟩, 3600)]) := by
    decide +kernel
  obtain ⟨before, reached, rest⟩ := Option.bind_eq_some_iff.mp ran
  obtain ⟨next, advanced, observed⟩ := Option.map_eq_some_iff.mp rest
  obtain ⟨earlier, claimed⟩ := Prod.mk.inj observed
  have claims : next.scheduler.history =
      before.scheduler.history ++ [(⟨"web", "sync"⟩, 3600)] := by
    rw [earlier, claimed]
    rfl
  have reaches : (datedMachine hourlyOrDaily).Reaches DatedScheduler.Undisturbed freshScheduler
      before := Machine.reaches_of_checked reached fun _ _ allowed => of_decide_eq_true allowed
  exact ⟨before, next, reaches, advanced, claims,
    scheduled_runs_follow_schedule hourlyOrDaily later_hourlyOrDaily .empty 0 (fun _ => 0)
      (fun _ => rfl) (fun _ => le_rfl) before next _ _ 3600 reaches advanced claims⟩

/-- The schedule of an evaluated job is changed from every hour to every day.  The run at the
next full hour is claimed all the same. -/
theorem changed_schedule_keeps_due_time :
    ∃ before next,
      (datedMachine hourlyOrDaily).Reaches (fun _ _ => True) freshScheduler before ∧
      (datedMachine hourlyOrDaily).advance before ⟨3601, .proceed none⟩ = some next ∧
      next.scheduler.history = before.scheduler.history ++ [(⟨"web", "sync"⟩, 3600)] ∧
      before.scheduler.store.cronSpec ⟨"web", "sync"⟩ = some (dailySpec 2) ∧
      ¬ before.FollowsSchedule hourlyOrDaily ⟨"web", "sync"⟩ 3600 := by
  have ran : ((((datedMachine hourlyOrDaily).checked fun _ _ => true).run freshScheduler
      (reinstalled (dailySpec 2))).bind
        fun before => ((datedMachine hourlyOrDaily).advance before ⟨3601, .proceed none⟩).map
          fun next => ((before.scheduler.history, next.scheduler.history),
            before.scheduler.store.cronSpec ⟨"web", "sync"⟩)) =
      some (([], [(⟨"web", "sync"⟩, 3600)]), some (dailySpec 2)) := by
    decide +kernel
  obtain ⟨before, reached, rest⟩ := Option.bind_eq_some_iff.mp ran
  obtain ⟨next, advanced, observed⟩ := Option.map_eq_some_iff.mp rest
  obtain ⟨histories, installed⟩ := Prod.mk.inj observed
  obtain ⟨earlier, claimed⟩ := Prod.mk.inj histories
  refine ⟨before, next, Machine.reaches_of_checked reached fun _ _ _ => trivial, advanced, ?_,
    installed, ?_⟩
  · rw [earlier, claimed]
    rfl
  · rintro ⟨spec, isSpec, ⟨time, _, occurs⟩, _⟩
    obtain rfl := Option.some.inj (installed.symm.trans isSpec)
    have daily : (time / 86400 + 1) * 86400 = 3600 := Except.ok.inj occurs
    omega

end Agent
end Jiji
