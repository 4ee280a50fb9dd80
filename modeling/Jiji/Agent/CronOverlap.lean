import Jiji.Agent.CronRecovery
import Jiji.Control.Machine

/-!
# Cron runs never overlap

The moves of a run write its state without a look at the state that it has, so the order of
the states rests on the tasks of the agent: every run is driven by one task at a time.  This
module follows an agent through scheduler ticks, manual runs, executor tasks, retention,
crashes and recovery.
-/

namespace Jiji
namespace Agent

open Control

/-- What a task that drives a run does next: lease an address, start the container, or wait
for its end. -/
inductive CronTaskStage
  | leasing
  | starting
  | monitoring
  deriving DecidableEq, Repr

structure CronTask where
  runId : String
  stage : CronTaskStage
  deriving DecidableEq, Repr

/-- An agent is down, recovers the runs that a crash left, or serves. -/
inductive CronMode
  | down
  | recovering (containers : List CronContainer) (pending : List CronRun)
  | serving
  deriving DecidableEq

/-- An agent with the tasks that drive its runs, and every identifier that it has given to a
run. -/
structure CronAgent where
  store : CronStore
  tasks : List CronTask
  mode : CronMode
  used : List String

/-- A section of one of the agent's activities.  A write of a run's state may fail, and has
no effect then. -/
inductive CronEvent
  | applySpec (spec : CronJobSpec)
  | removeSpec (job : CronJob)
  | tickClaim (project : String) (job : CronJob) (dueAt : ℕ) (runId : String) (now : ℕ)
  | tickLease (runId : String) (leaseError : Option String) (now : ℕ) (recorded : Bool)
  | manualRun (project : String) (job : CronJob) (runId : String) (timestamp : ℕ)
      (leaseError : Option String) (recorded : Bool)
  | startFails (runId : String) (error : String) (finishedAt : ℕ) (recorded : Bool)
  | starts (runId : String) (startedAt : ℕ) (containerName address : String) (recorded : Bool)
  | monitorEnds (runId : String) (containerName : String) (remaining : ℕ)
      (outcome : WaitOutcome) (finishedAt : ℕ) (recorded : Bool)
  | retain (now keepSeconds keepLatest : ℕ)
  | crash
  | boot (listing : Except String (List CronContainer))
  | recoverNext (exitCodes : String → Option ℤ) (now : ℕ)

namespace CronAgent

/-- Claim a run; one that is claimed is driven from then on. -/
def claim
    (agent : CronAgent)
    (project : String)
    (job : CronJob)
    (cause : CronRunCause)
    (scheduledAt : Option ℕ)
    (runId : String)
    (timestamp : ℕ)
    (drive : CronAgent → CronAgent) : CronAgent :=
  match agent.store.claimCronRun project job cause scheduledAt runId timestamp with
  | .ok (.claimed run, store) =>
      drive { agent with
        store := store
        tasks := agent.tasks ++ [⟨run.runId, .leasing⟩]
        used := run.runId :: agent.used }
  | .ok (.duplicateScheduledClaim _, store) => { agent with store := store }
  | .ok (.overlapForbidden _, store) => { agent with store := store }
  | .error _ => agent

/-- A task reaches its next stage. -/
def moveTask (agent : CronAgent) (runId : String) (stage : CronTaskStage) : CronAgent :=
  { agent with
    tasks := agent.tasks.map fun task =>
      if task.runId = runId then { task with stage := stage } else task }

/-- A task ends with the end of its run. -/
def endTask
    (agent : CronAgent)
    (runId : String)
    (recorded : Bool)
    (state : CronRunState)
    (finishedAt : ℕ)
    (exitCode : Option ℤ)
    (error : Option String) : CronAgent :=
  { agent with
    store :=
      if recorded then (agent.store.finishCronRun runId state finishedAt exitCode error).2
      else agent.store
    tasks := agent.tasks.filter fun task => task.runId ≠ runId }

/-- A task records the start of its container and waits for its end. -/
def startTask
    (agent : CronAgent)
    (runId : String)
    (startedAt : ℕ)
    (containerName address : String)
    (recorded : Bool) : CronAgent :=
  CronAgent.moveTask
    { agent with
      store :=
        if recorded then
          (agent.store.startCronRun runId startedAt runId containerName address).2
        else agent.store }
    runId .monitoring

/-- Lease an address for a claimed run; the outcome of the allocator is given. -/
def leaseAndSpawn
    (agent : CronAgent)
    (runId : String)
    (leaseError : Option String)
    (timestamp : ℕ)
    (recorded : Bool) : CronAgent :=
  match leaseError with
  | some error =>
      agent.endTask runId recorded .failed timestamp none
        (some s!"address allocation failed: {error}")
  | none => agent.moveTask runId .starting

/-- The stage of the task that drives a run. -/
def stageOf (agent : CronAgent) (runId : String) : Option CronTaskStage :=
  (agent.tasks.find? fun task => task.runId = runId).map CronTask.stage

/-- A manual run claims and leases in one section. -/
def manualRun
    (agent : CronAgent)
    (project : String)
    (job : CronJob)
    (runId : String)
    (timestamp : ℕ)
    (leaseError : Option String)
    (recorded : Bool) : CronAgent :=
  match agent.store.cronSpec job with
  | none => agent
  | some _ =>
      agent.claim project job .manual none runId timestamp
        (·.leaseAndSpawn runId leaseError timestamp recorded)

/-- Recover the first run that waits. -/
def recoverNext
    (agent : CronAgent)
    (containers : List CronContainer)
    (run : CronRun)
    (pending : List CronRun)
    (exitCodes : String → Option ℤ)
    (now : ℕ) : CronAgent :=
  let recovery := CronStore.recoverRun containers exitCodes now ⟨agent.store, []⟩ run
  { agent with
    store := recovery.store
    tasks := agent.tasks ++ recovery.monitors.map fun monitor => ⟨monitor.runId, .monitoring⟩
    mode := .recovering containers pending }

/-- What the API and the scheduler do only once recovery is over. -/
def whenServing (agent next : CronAgent) : Option CronAgent :=
  if agent.mode = .serving then some next else none

/-- What a task does only at its stage. -/
def whenAt (agent : CronAgent) (runId : String) (stage : CronTaskStage) (next : CronAgent) :
    Option CronAgent :=
  if agent.stageOf runId = some stage then some next else none

def advance (agent : CronAgent) : CronEvent → Option CronAgent
  | .applySpec spec =>
      agent.whenServing { agent with store := (agent.store.applyCronSpec spec).2 }
  | .removeSpec job =>
      agent.whenServing { agent with store := (agent.store.removeCronSpec job).2 }
  | .tickClaim project job dueAt runId now =>
      agent.whenServing (agent.claim project job .scheduled (some dueAt) runId now id)
  | .tickLease runId leaseError now recorded =>
      agent.whenAt runId .leasing (agent.leaseAndSpawn runId leaseError now recorded)
  | .manualRun project job runId timestamp leaseError recorded =>
      agent.whenServing (agent.manualRun project job runId timestamp leaseError recorded)
  | .startFails runId error finishedAt recorded =>
      agent.whenAt runId .starting
        (agent.endTask runId recorded .failed finishedAt none (some error))
  | .starts runId startedAt containerName address recorded =>
      agent.whenAt runId .starting
        (agent.startTask runId startedAt containerName address recorded)
  | .monitorEnds runId containerName remaining outcome finishedAt recorded =>
      let (state, exitCode, error) :=
        CronMonitor.verdict ⟨runId, containerName, remaining⟩ outcome
      agent.whenAt runId .monitoring
        (agent.endTask runId recorded state finishedAt exitCode error)
  | .retain now keepSeconds keepLatest =>
      agent.whenServing
        { agent with store := (agent.store.retainCronRuns now keepSeconds keepLatest).2 }
  | .crash => some { agent with tasks := [], mode := .down }
  | .boot listing =>
      match agent.mode, listing with
      | .down, .error _ => some { agent with mode := .serving }
      | .down, .ok containers =>
          some { agent with mode := .recovering containers agent.store.activeRuns }
      | _, _ => none
  | .recoverNext exitCodes now =>
      match agent.mode with
      | .recovering _ [] => some { agent with mode := .serving }
      | .recovering containers (run :: pending) =>
          some (agent.recoverNext containers run pending exitCodes now)
      | _ => none

/-- Every claim that adds a run gives it an identifier that no run had before. -/
def NewIds (agent : CronAgent) : CronEvent → Prop
  | .tickClaim project job dueAt runId now =>
      ∀ run store, agent.store.claimCronRun project job .scheduled (some dueAt) runId now =
        .ok (.claimed run, store) → runId ∉ agent.used
  | .manualRun project job runId timestamp _ _ =>
      ∀ run store, agent.store.claimCronRun project job .manual none runId timestamp =
        .ok (.claimed run, store) → runId ∉ agent.used
  | _ => True

/-- No two active runs of a job, and every task drives an active run alone. -/
structure Sound (agent : CronAgent) : Prop where
  overlap : ∀ first ∈ agent.store.runs, ∀ second ∈ agent.store.runs,
    first.state.isActive = true → second.state.isActive = true → first.job = second.job →
      first.runId = second.runId
  driven : ∀ task ∈ agent.tasks, ∀ run ∈ agent.store.runs, run.runId = task.runId →
    run.state.isActive = true
  alone : (agent.tasks.map CronTask.runId).Nodup
  waiting : ∀ containers pending, agent.mode = .recovering containers pending →
    (pending.map CronRun.runId).Nodup ∧ ∀ waiting ∈ pending, waiting.runId ∈ agent.used ∧
      (∀ task ∈ agent.tasks, task.runId ≠ waiting.runId) ∧
      ∀ run ∈ agent.store.runs, run.runId = waiting.runId → run.state.isActive = true
  usedRuns : ∀ run ∈ agent.store.runs, run.runId ∈ agent.used
  usedTasks : ∀ task ∈ agent.tasks, task.runId ∈ agent.used
  idle : agent.mode = .down → agent.tasks = []

/-- How an operation may change the runs: it keeps a run, writes an active one, or adds one
run with a new identifier to a job without an active run. -/
structure Evolves (agent next : CronAgent) : Prop where
  used : agent.used ⊆ next.used
  runs : ∀ run ∈ next.store.runs,
    (∃ before ∈ agent.store.runs, before.runId = run.runId ∧ before.job = run.job ∧
      (before = run ∨ before.state.isActive = true)) ∨
    run.runId ∉ agent.used ∧ ∀ before ∈ agent.store.runs, before.job = run.job →
      before.state.isActive = false
  single : ∀ first ∈ next.store.runs, ∀ second ∈ next.store.runs,
    first.runId ∉ agent.used → second.runId ∉ agent.used → first.runId = second.runId

variable {agent next : CronAgent} {runId : String}

/-- An operation that adds no run. -/
theorem Evolves.of_old
    (sound : agent.Sound)
    (used : agent.used ⊆ next.used)
    (runs : ∀ run ∈ next.store.runs, ∃ before ∈ agent.store.runs, before.runId = run.runId ∧
      before.job = run.job ∧ (before = run ∨ before.state.isActive = true)) :
    agent.Evolves next where
  used := used
  runs run member := Or.inl (runs run member)
  single first firstMember second secondMember firstNew := by
    obtain ⟨before, stored, same, _⟩ := runs first firstMember
    exact absurd (same ▸ sound.usedRuns before stored) firstNew

/-- Runs that evolve never overlap. -/
theorem Evolves.overlap
    (sound : agent.Sound)
    (evolves : agent.Evolves next) :
    ∀ first ∈ next.store.runs, ∀ second ∈ next.store.runs,
      first.state.isActive = true → second.state.isActive = true → first.job = second.job →
        first.runId = second.runId := by
  intro first firstMember second secondMember firstActive secondActive same
  have wasActive : ∀ {before run : CronRun}, run.state.isActive = true →
      (before = run ∨ before.state.isActive = true) → before.state.isActive = true := by
    rintro before run active (rfl | old)
    · exact active
    · exact old
  rcases evolves.runs first firstMember with
    ⟨before, stored, sameId, sameJob, kept⟩ | ⟨firstNew, firstFree⟩
  · rcases evolves.runs second secondMember with
      ⟨other, otherStored, otherId, otherJob, otherKept⟩ | ⟨_, secondFree⟩
    · rw [← sameId, ← otherId]
      exact sound.overlap before stored other otherStored (wasActive firstActive kept)
        (wasActive secondActive otherKept) (sameJob.trans (same.trans otherJob.symm))
    · have free := secondFree before stored (sameJob.trans same)
      rw [wasActive firstActive kept] at free
      cases free
  · rcases evolves.runs second secondMember with
      ⟨other, otherStored, _, otherJob, otherKept⟩ | ⟨secondNew, _⟩
    · have free := firstFree other otherStored (otherJob.trans same.symm)
      rw [wasActive secondActive otherKept] at free
      cases free
    · exact evolves.single first firstMember second secondMember firstNew secondNew

/-- The run of an identifier that is over, as long as it is stored. -/
structure Fixed (run : CronRun) (agent : CronAgent) : Prop where
  stored : ∀ other ∈ agent.store.runs, other.runId = run.runId → other = run
  used : run.runId ∈ agent.used

/-- A run that is over stays as it is. -/
theorem Fixed.evolves
    (fixed : Fixed run agent)
    (terminal : run.state.isActive = false)
    (evolves : agent.Evolves next) :
    Fixed run next where
  used := evolves.used fixed.used
  stored other member same := by
    rcases evolves.runs other member with ⟨before, stored, sameId, _, kept⟩ | ⟨new, _⟩
    · obtain rfl := fixed.stored before stored (sameId.trans same)
      rcases kept with rfl | active
      · rfl
      · rw [terminal] at active
        cases active
    · exact absurd (same ▸ fixed.used) new

/-- An operation that keeps an agent sound and the runs that are over as they are. -/
structure Safe (agent next : CronAgent) : Prop where
  sound : next.Sound
  fixed : ∀ run : CronRun, run.state.isActive = false → Fixed run agent → Fixed run next

theorem Safe.of_evolves (sound : next.Sound) (evolves : agent.Evolves next) :
    agent.Safe next :=
  ⟨sound, fun _ terminal fixed => fixed.evolves terminal evolves⟩

theorem Safe.trans
    {last : CronAgent}
    (first : agent.Safe next)
    (second : next.Safe last) :
    agent.Safe last :=
  ⟨second.sound, fun run terminal fixed =>
    second.fixed run terminal (first.fixed run terminal fixed)⟩

/-- A store whose runs are those of another one, but for the run of an identifier. -/
def Rewrites (runId : String) (before after : CronStore) : Prop :=
  ∀ run ∈ after.runs, ∃ old ∈ before.runs, old.runId = run.runId ∧ old.job = run.job ∧
    (old = run ∨ old.runId = runId)

theorem rewrites_self (store : CronStore) : Rewrites runId store store :=
  fun run member => ⟨run, member, rfl, rfl, Or.inl rfl⟩

theorem rewrites_finishCronRun
    (store : CronStore)
    (state : CronRunState)
    (finishedAt : ℕ)
    (exitCode : Option ℤ)
    (error : Option String) :
    Rewrites runId store (store.finishCronRun runId state finishedAt exitCode error).2 := by
  intro run member
  obtain ⟨before, stored, rfl⟩ := CronStore.mem_finishCronRun.mp member
  refine ⟨before, stored, ?_⟩
  split
  · rename_i same
    exact ⟨rfl, rfl, Or.inr same⟩
  · exact ⟨rfl, rfl, Or.inl rfl⟩

theorem rewrites_startCronRun
    (store : CronStore)
    (startedAt : ℕ)
    (deploymentId containerName address : String) :
    Rewrites runId store
      (store.startCronRun runId startedAt deploymentId containerName address).2 := by
  intro run member
  obtain ⟨before, stored, rfl⟩ := CronStore.mem_startCronRun.mp member
  refine ⟨before, stored, ?_⟩
  split
  · rename_i same
    exact ⟨rfl, rfl, Or.inr same⟩
  · exact ⟨rfl, rfl, Or.inl rfl⟩

/-- Another run is not rewritten. -/
theorem Rewrites.mem
    (rewrites : Rewrites runId before after)
    (member : run ∈ after.runs)
    (different : run.runId ≠ runId) :
    run ∈ before.runs := by
  obtain ⟨old, stored, sameId, _, rfl | named⟩ := rewrites run member
  · exact stored
  · exact absurd (sameId.symm.trans named) different

/-- The run of one identifier is written, by a task that drives it or by recovery. -/
theorem Safe.rewrite
    {store : CronStore}
    {tasks : List CronTask}
    {mode : CronMode}
    (sound : agent.Sound)
    (rewrites : Rewrites runId agent.store store)
    (active : ∀ run ∈ agent.store.runs, run.runId = runId → run.state.isActive = true)
    (subset : (tasks.map CronTask.runId).Sublist (agent.tasks.map CronTask.runId))
    (driven : ∀ task ∈ tasks, task.runId = runId → ∀ run ∈ store.runs, run.runId = runId →
      run.state.isActive = true)
    (waiting : ∀ containers pending, mode = .recovering containers pending →
      ∃ earlier, agent.mode = .recovering containers (earlier ++ pending) ∧
        ∀ waiting ∈ pending, waiting.runId ≠ runId)
    (idle : mode = .down → tasks = []) :
    agent.Safe { agent with store := store, tasks := tasks, mode := mode } := by
  have evolves : agent.Evolves { agent with store := store, tasks := tasks, mode := mode } := by
    refine .of_old sound (fun _ member => member) fun run member => ?_
    obtain ⟨old, stored, sameId, sameJob, kept⟩ := rewrites run member
    exact ⟨old, stored, sameId, sameJob, kept.imp_right (active old stored)⟩
  have taskOf : ∀ task ∈ tasks, ∃ earlier ∈ agent.tasks, earlier.runId = task.runId :=
    fun task member => List.mem_map.mp (subset.subset (List.mem_map_of_mem member))
  refine .of_evolves ⟨evolves.overlap sound, ?_, sound.alone.sublist subset, ?_, ?_, ?_, idle⟩
    evolves
  · intro task member run stored same
    by_cases named : task.runId = runId
    · exact driven task member named run stored (same.trans named)
    · obtain ⟨earlier, earlierMember, sameTask⟩ := taskOf task member
      exact sound.driven earlier earlierMember run
        (rewrites.mem stored fun isRun => named (same.symm.trans isRun))
        (same.trans sameTask.symm)
  · intro containers pending recovering
    obtain ⟨earlier, before, others⟩ := waiting containers pending recovering
    obtain ⟨distinct, waits⟩ := sound.waiting _ _ before
    rw [List.map_append] at distinct
    refine ⟨(List.nodup_append.mp distinct).2.1, fun later member => ?_⟩
    obtain ⟨used, undriven, stillActive⟩ := waits later (List.mem_append_right _ member)
    refine ⟨used, fun task taskMember same => ?_, fun run stored same => ?_⟩
    · obtain ⟨old, oldMember, sameTask⟩ := taskOf task taskMember
      exact undriven old oldMember (sameTask.trans same)
    · exact stillActive run
        (rewrites.mem stored fun isRun => others later member (same.symm.trans isRun)) same
  · intro run member
    obtain ⟨old, stored, sameId, _⟩ := rewrites run member
    exact sameId ▸ sound.usedRuns old stored
  · intro task member
    obtain ⟨earlier, earlierMember, sameTask⟩ := taskOf task member
    exact sameTask ▸ sound.usedTasks earlier earlierMember

/-- A run that a task drives is active, and does not wait for recovery. -/
theorem Sound.not_waiting
    (sound : agent.Sound)
    (member : task ∈ agent.tasks)
    (recovering : agent.mode = .recovering containers pending) :
    ∃ earlier, agent.mode = .recovering containers (earlier ++ pending) ∧
      ∀ waiting ∈ pending, waiting.runId ≠ task.runId :=
  ⟨[], recovering, fun waiting isPending same =>
    ((sound.waiting _ _ recovering).2 waiting isPending).2.1 task member same.symm⟩

theorem exists_task_of_stageOf
    (reached : agent.stageOf runId = some stage) :
    ∃ task ∈ agent.tasks, task.runId = runId := by
  obtain ⟨task, found, _⟩ := Option.map_eq_some_iff.mp reached
  have named := List.find?_some found
  exact ⟨task, List.mem_of_find?_eq_some found, by simpa using named⟩

theorem Safe.endTask
    {recorded : Bool}
    {state : CronRunState}
    {finishedAt : ℕ}
    {error : Option String}
    {task : CronTask}
    (sound : agent.Sound)
    (member : task ∈ agent.tasks)
    (named : task.runId = runId) :
    agent.Safe (agent.endTask runId recorded state finishedAt exitCode error) := by
  have others : ∀ other ∈ agent.tasks.filter (fun other => other.runId ≠ runId),
      other.runId ≠ runId := fun other kept => of_decide_eq_true (List.mem_filter.mp kept).2
  subst named
  refine Safe.rewrite sound ?_ (sound.driven task member)
    ((List.filter_sublist).map CronTask.runId)
    (fun other kept same => absurd same (others other kept))
    (fun _ _ recovering => sound.not_waiting member recovering) (fun down => ?_)
  · cases recorded
    · exact rewrites_self _
    · exact rewrites_finishCronRun _ _ _ _ _
  · rw [sound.idle down, List.filter_nil]

theorem moveTask_map_runId (tasks : List CronTask) (stage : CronTaskStage) :
    (tasks.map fun task => if task.runId = runId then { task with stage := stage } else
      task).map CronTask.runId = tasks.map CronTask.runId := by
  rw [List.map_map]
  refine List.map_congr_left fun task _ => ?_
  simp only [Function.comp_apply]
  split <;> rfl

/-- A task that goes on may record the start of its container. -/
theorem Safe.moveTask
    {store : CronStore}
    {task : CronTask}
    {stage : CronTaskStage}
    (sound : agent.Sound)
    (member : task ∈ agent.tasks)
    (named : task.runId = runId)
    (rewrites : Rewrites runId agent.store store)
    (driven : ∀ run ∈ store.runs, run.runId = runId → run.state.isActive = true) :
    agent.Safe (CronAgent.moveTask { agent with store := store } runId stage) := by
  subst named
  refine Safe.rewrite sound rewrites (sound.driven task member)
    (moveTask_map_runId agent.tasks stage ▸ List.Sublist.refl _) (fun _ _ _ => driven)
    (fun _ _ recovering => sound.not_waiting member recovering) (fun down => ?_)
  rw [sound.idle down, List.map_nil]

theorem Safe.startTask
    (sound : agent.Sound)
    (member : task ∈ agent.tasks)
    (named : task.runId = runId) :
    agent.Safe (agent.startTask runId startedAt containerName address recorded) := by
  cases recorded with
  | false =>
      refine Safe.moveTask sound member named (rewrites_self _) ?_
      exact named ▸ sound.driven task member
  | true =>
      refine Safe.moveTask sound member named (rewrites_startCronRun _ _ _ _ _) ?_
      intro run stored same
      obtain ⟨before, _, rfl⟩ := CronStore.mem_startCronRun.mp stored
      split
      · rfl
      · rename_i other
        rw [if_neg other] at same
        exact absurd same other

theorem Safe.leaseAndSpawn
    (sound : agent.Sound)
    (member : task ∈ agent.tasks)
    (named : task.runId = runId) :
    agent.Safe (agent.leaseAndSpawn runId leaseError timestamp recorded) := by
  cases leaseError with
  | some error => exact Safe.endTask sound member named
  | none =>
      refine Safe.moveTask sound member named (rewrites_self _) ?_
      exact named ▸ sound.driven task member

/-- An operation that leaves every run as it is, or deletes runs. -/
theorem Safe.of_sublist
    {store : CronStore}
    (sound : agent.Sound)
    (kept : ∀ run ∈ store.runs, run ∈ agent.store.runs) :
    agent.Safe { agent with store := store } := by
  have evolves : agent.Evolves { agent with store := store } :=
    .of_old sound (fun _ member => member) fun run member =>
      ⟨run, kept run member, rfl, rfl, Or.inl rfl⟩
  refine .of_evolves ⟨evolves.overlap sound, ?_, sound.alone, ?_, ?_, sound.usedTasks,
    sound.idle⟩ evolves
  · exact fun task member run stored => sound.driven task member run (kept run stored)
  · intro containers pending recovering
    obtain ⟨distinct, waits⟩ := sound.waiting containers pending recovering
    refine ⟨distinct, fun waiting member => ?_⟩
    obtain ⟨used, undriven, active⟩ := waits waiting member
    exact ⟨used, undriven, fun run stored => active run (kept run stored)⟩
  · exact fun run member => sound.usedRuns run (kept run member)

/-- A job without an active run. -/
theorem inactive_of_activeCronRun
    {store : CronStore}
    {run : CronRun}
    (free : store.activeCronRun job = none)
    (member : run ∈ store.runs)
    (same : run.job = job) :
    run.state.isActive = false := by
  have checked := List.find?_eq_none.mp free run member
  simpa [same] using checked

section Claim

variable {project : String} {job : CronJob} {cause : CronRunCause} {scheduledAt : Option ℕ}
variable {timestamp : ℕ} {drive : CronAgent → CronAgent}

/-- A claim adds a run with its task. -/
theorem Safe.claimed
    {store : CronStore}
    (sound : agent.Sound)
    (serving : agent.mode = .serving)
    (claims : agent.store.claimCronRun project job cause scheduledAt runId timestamp =
      .ok (.claimed run, store))
    (new : runId ∉ agent.used) :
    run.runId = runId ∧ agent.Safe
      { agent with
        store := store
        tasks := agent.tasks ++ [⟨run.runId, .leasing⟩]
        used := run.runId :: agent.used } := by
  rcases CronStore.claimCronRun_cases claims with
    ⟨_, impossible, _⟩ | ⟨_, impossible, _⟩ | ⟨isNew, _, free, _, runs, _, _⟩
  · cases impossible
  · cases impossible
  cases isNew
  refine ⟨rfl, ?_⟩
  have split : ∀ other ∈ store.runs, other ∈ agent.store.runs ∨
      other = CronStore.newRun project job cause scheduledAt runId timestamp := by
    intro other member
    rw [runs] at member
    simpa using member
  have evolves : agent.Evolves
      { agent with
        store := store
        tasks := agent.tasks ++
          [⟨(CronStore.newRun project job cause scheduledAt runId timestamp).runId, .leasing⟩]
        used := (CronStore.newRun project job cause scheduledAt runId timestamp).runId ::
          agent.used } := by
    refine ⟨List.subset_cons_self _ _, fun other member => ?_, ?_⟩
    · rcases split other member with old | rfl
      · exact Or.inl ⟨other, old, rfl, rfl, Or.inl rfl⟩
      · exact Or.inr ⟨new, fun before stored => inactive_of_activeCronRun free stored⟩
    · intro first firstMember second secondMember firstNew secondNew
      rcases split first firstMember with old | rfl
      · exact absurd (sound.usedRuns first old) firstNew
      rcases split second secondMember with old | rfl
      · exact absurd (sound.usedRuns second old) secondNew
      · rfl
  refine .of_evolves ⟨evolves.overlap sound, ?_, ?_, ?_, ?_, ?_, ?_⟩ evolves
  · intro task member other stored same
    rcases split other stored with old | rfl
    · rcases List.mem_append.mp member with oldTask | newTask
      · exact sound.driven task oldTask other old same
      · rw [List.mem_singleton.mp newTask] at same
        have named : other.runId = runId := same
        exact absurd (named ▸ sound.usedRuns other old) new
    · rfl
  · rw [List.map_append, List.nodup_append]
    refine ⟨sound.alone, List.nodup_singleton _, ?_⟩
    intro old member fresh isFresh same
    obtain ⟨task, taskMember, rfl⟩ := List.mem_map.mp member
    rw [List.mem_singleton.mp isFresh] at same
    have named : task.runId = runId := same
    exact new (named ▸ sound.usedTasks task taskMember)
  · intro containers pending recovering
    rw [serving] at recovering
    cases recovering
  · intro other stored
    rcases split other stored with old | rfl
    · exact List.mem_cons_of_mem _ (sound.usedRuns other old)
    · exact List.mem_cons_self
  · intro task member
    rcases List.mem_append.mp member with old | newTask
    · exact List.mem_cons_of_mem _ (sound.usedTasks task old)
    · rw [List.mem_singleton.mp newTask]
      exact List.mem_cons_self
  · intro down
    rw [serving] at down
    cases down

/-- A claim and what drives its run. -/
theorem Safe.claim
    (sound : agent.Sound)
    (serving : agent.mode = .serving)
    (new : ∀ run store, agent.store.claimCronRun project job cause scheduledAt runId timestamp =
      .ok (.claimed run, store) → runId ∉ agent.used)
    (driven : ∀ claimed : CronAgent, claimed.Sound →
      (∃ task ∈ claimed.tasks, task.runId = runId) → claimed.Safe (drive claimed)) :
    agent.Safe (agent.claim project job cause scheduledAt runId timestamp drive) := by
  unfold CronAgent.claim
  split
  · rename_i run store claims
    obtain ⟨named, safe⟩ := Safe.claimed sound serving claims (new run store claims)
    refine safe.trans (driven _ safe.sound ⟨⟨run.runId, .leasing⟩, ?_, named⟩)
    exact List.mem_append_right _ List.mem_cons_self
  · rename_i claims
    refine Safe.of_sublist sound fun run member => ?_
    rcases CronStore.claimCronRun_cases claims with ⟨_, _, rfl⟩ | ⟨_, _, rfl⟩ | ⟨impossible, _⟩
    · exact member
    · exact member
    · cases impossible
  · rename_i claims
    refine Safe.of_sublist sound fun run member => ?_
    rcases CronStore.claimCronRun_cases claims with ⟨_, _, rfl⟩ | ⟨_, _, rfl⟩ | ⟨impossible, _⟩
    · exact member
    · exact member
    · cases impossible
  · exact ⟨sound, fun _ _ fixed => fixed⟩

end Claim

section Recovery

variable {containers : List CronContainer} {run : CronRun} {pending : List CronRun}
variable {exitCodes : String → Option ℤ} {now : ℕ}

/-- Recovery ends a run or watches it. -/
theorem recoverRun_cases (store : CronStore) :
    (∃ state exitCode error, CronRunState.isActive state = false ∧
      CronStore.recoverRun containers exitCodes now ⟨store, []⟩ run =
        ⟨(store.finishCronRun run.runId state now exitCode error).2, []⟩) ∨
    ∃ monitor : CronMonitor, monitor.runId = run.runId ∧
      CronStore.recoverRun containers exitCodes now ⟨store, []⟩ run = ⟨store, [monitor]⟩ := by
  unfold CronStore.recoverRun
  split
  · exact Or.inl ⟨_, _, _, rfl, rfl⟩
  · split
    · refine Or.inl ⟨_, _, _, ?_, rfl⟩
      split <;> rfl
    · exact Or.inr ⟨_, rfl, rfl⟩

theorem Safe.recoverNext
    (sound : agent.Sound)
    (recovering : agent.mode = .recovering containers (run :: pending)) :
    agent.Safe (agent.recoverNext containers run pending exitCodes now) := by
  obtain ⟨distinct, waits⟩ := sound.waiting _ _ recovering
  obtain ⟨used, undriven, active⟩ := waits run List.mem_cons_self
  rw [List.map_cons, List.nodup_cons] at distinct
  have others : ∀ waiting ∈ pending, waiting.runId ≠ run.runId :=
    fun waiting member same => distinct.1 (List.mem_map.mpr ⟨waiting, member, same⟩)
  have later : ∀ containers' pending', CronMode.recovering containers pending =
      .recovering containers' pending' →
      ∃ earlier, agent.mode = .recovering containers' (earlier ++ pending') ∧
        ∀ waiting ∈ pending', waiting.runId ≠ run.runId := by
    rintro _ _ ⟨⟩
    exact ⟨[run], recovering, others⟩
  unfold CronAgent.recoverNext
  rcases recoverRun_cases agent.store with
    ⟨state, exitCode, error, _, recovery⟩ | ⟨monitor, named, recovery⟩
  · rw [recovery]
    simp only [List.map_nil, List.append_nil]
    exact Safe.rewrite sound (rewrites_finishCronRun _ _ _ _ _) active (List.Sublist.refl _)
      (fun task member same => absurd same (undriven task member)) later
      (fun down => by cases down)
  · rw [recovery]
    have dropped : agent.Safe { agent with mode := .recovering containers pending } :=
      Safe.rewrite sound (rewrites_self _) active (List.Sublist.refl _)
        (fun task member same => absurd same (undriven task member)) later
        (fun down => by cases down)
    obtain ⟨overlap, driven, alone, waiting, usedRuns, usedTasks, _⟩ := dropped.sound
    refine ⟨⟨overlap, ?_, ?_, ?_, usedRuns, ?_, fun down => by cases down⟩,
      fun _ _ fixed => ⟨fixed.stored, fixed.used⟩⟩
    · intro task member other stored same
      rcases List.mem_append.mp member with old | new
      · exact driven task old other stored same
      · rw [List.map_cons, List.map_nil, List.mem_singleton] at new
        subst new
        exact active other stored (same.trans named)
    · rw [List.map_append, List.nodup_append]
      refine ⟨alone, by simp, ?_⟩
      intro old member fresh isFresh same
      obtain ⟨task, taskMember, rfl⟩ := List.mem_map.mp member
      simp only [List.map_cons, List.map_nil, List.mem_singleton] at isFresh
      exact undriven task taskMember (same.trans (isFresh.trans named))
    · intro containers' pending' still
      obtain ⟨stillDistinct, stillWaits⟩ := waiting containers' pending' still
      refine ⟨stillDistinct, fun other member => ?_⟩
      obtain ⟨otherUsed, otherUndriven, otherActive⟩ := stillWaits other member
      refine ⟨otherUsed, fun task taskMember same => ?_, otherActive⟩
      rcases List.mem_append.mp taskMember with old | new
      · exact otherUndriven task old same
      · rw [List.map_cons, List.map_nil, List.mem_singleton] at new
        subst new
        cases still
        exact others other member (same.symm.trans named)
    · intro task member
      rcases List.mem_append.mp member with old | new
      · exact usedTasks task old
      · rw [List.map_cons, List.map_nil, List.mem_singleton] at new
        subst new
        exact named ▸ used

/-- After a crash no task is left. -/
theorem Safe.crash (sound : agent.Sound) :
    agent.Safe { agent with tasks := [], mode := .down } := by
  refine ⟨⟨sound.overlap, by simp, List.nodup_nil, ?_, sound.usedRuns, by simp, fun _ => rfl⟩,
    fun _ _ fixed => ⟨fixed.stored, fixed.used⟩⟩
  intro containers pending impossible
  cases impossible

/-- Recovery begins with the runs that are active. -/
theorem Safe.beginRecovery (sound : agent.Sound) (down : agent.mode = .down) :
    agent.Safe { agent with mode := .recovering containers agent.store.activeRuns } := by
  refine ⟨⟨sound.overlap, sound.driven, sound.alone, ?_, sound.usedRuns, sound.usedTasks,
    fun impossible => by cases impossible⟩, fun _ _ fixed => ⟨fixed.stored, fixed.used⟩⟩
  rintro _ _ ⟨⟩
  refine ⟨agent.store.runs_nodup.sublist (List.filter_sublist.map _), fun waiting member => ?_⟩
  obtain ⟨stored, active⟩ := List.mem_filter.mp member
  refine ⟨sound.usedRuns waiting stored, ?_, fun run runStored same => ?_⟩
  · simp [sound.idle down]
  · rw [agent.store.eq_of_runId runStored stored same]
    exact active

theorem Safe.serve (sound : agent.Sound) : agent.Safe { agent with mode := .serving } := by
  refine ⟨⟨sound.overlap, sound.driven, sound.alone, ?_, sound.usedRuns, sound.usedTasks,
    fun impossible => by cases impossible⟩, fun _ _ fixed => ⟨fixed.stored, fixed.used⟩⟩
  intro containers pending impossible
  cases impossible

end Recovery

/-- Every section of every activity is safe. -/
theorem Safe.advance
    {event : CronEvent}
    (sound : agent.Sound)
    (newIds : agent.NewIds event)
    (advanced : agent.advance event = some next) :
    agent.Safe next := by
  have serving : ∀ {reached : CronAgent}, agent.whenServing reached = some next →
      (agent.mode = .serving → agent.Safe reached) → agent.Safe next := by
    intro reached guarded safe
    unfold whenServing at guarded
    split at guarded
    · rename_i isServing
      exact Option.some.inj guarded ▸ safe isServing
    · cases guarded
  have staged : ∀ {runId : String} {stage : CronTaskStage} {reached : CronAgent},
      agent.whenAt runId stage reached = some next →
      (∀ task ∈ agent.tasks, task.runId = runId → agent.Safe reached) → agent.Safe next := by
    intro runId stage reached guarded safe
    unfold whenAt at guarded
    split at guarded
    · rename_i isStaged
      obtain ⟨task, member, named⟩ := exists_task_of_stageOf isStaged
      exact Option.some.inj guarded ▸ safe task member named
    · cases guarded
  cases event with
  | applySpec spec => exact serving advanced fun _ => .of_sublist sound fun _ member => member
  | removeSpec job => exact serving advanced fun _ => .of_sublist sound fun _ member => member
  | tickClaim project job dueAt runId now =>
      exact serving advanced fun isServing => .claim sound isServing newIds
        fun _ claimedSound _ => ⟨claimedSound, fun _ _ fixed => fixed⟩
  | tickLease runId leaseError now recorded =>
      exact staged advanced fun _ member named => .leaseAndSpawn sound member named
  | manualRun project job runId timestamp leaseError recorded =>
      refine serving advanced fun isServing => ?_
      unfold CronAgent.manualRun
      split
      · exact ⟨sound, fun _ _ fixed => fixed⟩
      · refine .claim sound isServing newIds ?_
        rintro claimed claimedSound ⟨task, member, named⟩
        exact .leaseAndSpawn claimedSound member named
  | startFails runId error finishedAt recorded =>
      exact staged advanced fun _ member named => .endTask sound member named
  | starts runId startedAt containerName address recorded =>
      exact staged advanced fun _ member named => .startTask sound member named
  | monitorEnds runId containerName remaining outcome finishedAt recorded =>
      exact staged advanced fun _ member named => .endTask sound member named
  | retain now keepSeconds keepLatest =>
      exact serving advanced fun _ => .of_sublist sound fun _ member =>
        List.mem_of_mem_filter member
  | crash =>
      obtain rfl := Option.some.inj advanced
      exact .crash sound
  | boot listing =>
      simp only [CronAgent.advance] at advanced
      split at advanced
      · obtain rfl := Option.some.inj advanced
        exact .serve sound
      · rename_i down
        obtain rfl := Option.some.inj advanced
        exact .beginRecovery sound down
      · cases advanced
  | recoverNext exitCodes now =>
      simp only [CronAgent.advance] at advanced
      split at advanced
      · obtain rfl := Option.some.inj advanced
        exact .serve sound
      · rename_i recovering
        obtain rfl := Option.some.inj advanced
        exact .recoverNext sound recovering
      · cases advanced

/-- A sound agent that has not changed a run. -/
structure Remembers (run : CronRun) (agent : CronAgent) : Prop where
  sound : agent.Sound
  fixed : Fixed run agent

/-- An agent with a fresh database that is not up yet. -/
def fresh : CronAgent := ⟨.empty, [], .down, []⟩

theorem sound_fresh : fresh.Sound := by
  refine ⟨by simp [fresh, CronStore.empty], by simp [fresh], List.nodup_nil, ?_,
    by simp [fresh, CronStore.empty], by simp [fresh], fun _ => rfl⟩
  intro containers pending impossible
  cases impossible

/-- The active runs of a job. -/
def activeRunsOf (agent : CronAgent) (job : CronJob) : List CronRun :=
  agent.store.runs.filter fun run => run.job = job && run.state.isActive

theorem Sound.length_activeRunsOf (sound : agent.Sound) (job : CronJob) :
    (agent.activeRunsOf job).length ≤ 1 := by
  have distinct : ((agent.activeRunsOf job).map CronRun.runId).Nodup :=
    agent.store.runs_nodup.sublist (List.filter_sublist.map _)
  have same : ∀ first ∈ agent.activeRunsOf job, ∀ second ∈ agent.activeRunsOf job,
      first.runId = second.runId := by
    intro first firstMember second secondMember
    obtain ⟨firstStored, firstActive⟩ := List.mem_filter.mp firstMember
    obtain ⟨secondStored, secondActive⟩ := List.mem_filter.mp secondMember
    simp only [Bool.and_eq_true, decide_eq_true_eq] at firstActive secondActive
    exact sound.overlap first firstStored second secondStored firstActive.2 secondActive.2
      (firstActive.1.trans secondActive.1.symm)
  match runs : agent.activeRunsOf job with
  | [] => simp
  | [run] => simp
  | first :: second :: rest =>
      rw [runs] at distinct same
      have equal := same first (by simp) second (by simp)
      simp [equal] at distinct

end CronAgent

/-- The agent as a machine. -/
def cronMachine : Machine CronAgent CronEvent where
  advance := CronAgent.advance

/-- In every store that is reached, a job has at most one run that is claimed or running, and
a run that is over is found unchanged in every later store that has it. -/
theorem cron_runs_never_overlap
    (agent : CronAgent)
    (reaches : cronMachine.Reaches CronAgent.NewIds CronAgent.fresh agent) :
    (∀ job, (agent.activeRunsOf job).length ≤ 1) ∧
      ∀ later, cronMachine.Reaches CronAgent.NewIds agent later →
        ∀ run ∈ agent.store.runs, run.state.isActive = false →
          ∀ other ∈ later.store.runs, other.runId = run.runId → other = run := by
  have sound : agent.Sound := reaches.invariant CronAgent.sound_fresh
    fun _ _ _ sound newIds advanced => (CronAgent.Safe.advance sound newIds advanced).sound
  refine ⟨sound.length_activeRunsOf, fun later onward run member terminal other found same => ?_⟩
  have remembers : CronAgent.Remembers run later := by
    refine onward.invariant ⟨sound, fun other stored => agent.store.eq_of_runId stored member,
      sound.usedRuns run member⟩ ?_
    rintro state event next ⟨stateSound, fixed⟩ newIds advanced
    have safe := CronAgent.Safe.advance stateSound newIds advanced
    exact ⟨safe.sound, safe.fixed run terminal fixed⟩
  exact remembers.fixed.stored other found same

/-- A scheduled run that a crash interrupts, is recovered and ends, while manual runs of its
job are refused. -/
def interruptedRun : List CronEvent :=
  [.boot (.ok []), .recoverNext (fun _ => none) 0,
    .applySpec ⟨⟨"web", "sync"⟩, 1, "h", "* * * * *", "UTC", 60⟩,
    .tickClaim "p" ⟨"web", "sync"⟩ 60 "first" 60,
    .manualRun "p" ⟨"web", "sync"⟩ "refused" 61 none true,
    .tickLease "first" none 62 true,
    .starts "first" 63 "p-web-cron-sync-first" "10.9.0.5" true,
    .crash,
    .boot (.ok [⟨"p-web-cron-sync-first", some "first", true⟩]),
    .recoverNext (fun _ => none) 70,
    .recoverNext (fun _ => none) 70,
    .monitorEnds "first" "p-web-cron-sync-first" 53 (.exited 0) 80 true,
    .manualRun "p" ⟨"web", "sync"⟩ "second" 90 none true]

/-- Whether a claim that adds a run uses a new identifier, decided. -/
def CronAgent.newIds (agent : CronAgent) : CronEvent → Bool
  | .tickClaim _ _ _ runId _ => !agent.used.contains runId
  | .manualRun _ _ runId _ _ _ => !agent.used.contains runId
  | _ => true

theorem CronAgent.newIds_of_newIds
    (agent : CronAgent)
    (event : CronEvent)
    (passed : agent.newIds event = true) :
    agent.NewIds event := by
  cases event with
  | tickClaim project job dueAt runId now =>
      intro run store _
      simpa [CronAgent.newIds] using passed
  | manualRun project job runId timestamp leaseError recorded =>
      intro run store _
      simpa [CronAgent.newIds] using passed
  | _ => trivial

theorem cron_runs_never_overlap_interruptedRun :
    ∃ agent,
      cronMachine.Reaches CronAgent.NewIds CronAgent.fresh agent ∧
      agent.store.runs.map (fun run => (run.runId, run.state)) =
        [("first", .succeeded), ("second", .claimed)] ∧
      (agent.activeRunsOf ⟨"web", "sync"⟩).length ≤ 1 := by
  have ran : ((cronMachine.checked CronAgent.newIds).run CronAgent.fresh interruptedRun).map
      (fun agent => agent.store.runs.map fun run => (run.runId, run.state)) =
        some [("first", .succeeded), ("second", .claimed)] := by
    decide
  obtain ⟨agent, reached, runs⟩ := Option.map_eq_some_iff.mp ran
  have reaches := Machine.reaches_of_checked reached CronAgent.newIds_of_newIds
  exact ⟨agent, reaches, runs, (cron_runs_never_overlap agent reaches).1 _⟩

end Agent
end Jiji
