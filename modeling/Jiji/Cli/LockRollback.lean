import Jiji.Cli.LockAcquisition

/-!
# Failed acquisitions

A command that cannot get all of its locks gives back those it got.  It knows only of the
locks that it was told of: a lock that was installed while the reply was lost stays behind,
and nothing else does.
-/

namespace Jiji
namespace Cli

open Control

section Calls

variable {lockId : String} {fleet final : Fleet} {place : String × String}

/-- The lock at a place has the identifier of an invocation. -/
def Owned (lockId : String) (fleet : Fleet) (place : String × String) : Prop :=
  ∃ contents, fleet place.1 place.2 = some (.directory (some contents)) ∧
    contents.lockId = some lockId

instance (lockId : String) (fleet : Fleet) (place : String × String) :
    Decidable (Owned lockId fleet place) :=
  match found : fleet place.1 place.2 with
  | some (.directory (some contents)) =>
      decidable_of_iff (contents.lockId = some lockId) (by simp [Owned, found])
  | some (.directory none) | some .file | none => isFalse (by simp [Owned, found])

/-- Nothing changed at the other places. -/
def Frame (place : String × String) (before after : Fleet) : Prop :=
  ∀ other, other ≠ place → after other.1 other.2 = before other.1 other.2

theorem Frame.trans
    (first : Frame place fleet middle)
    (second : Frame place middle final) :
    Frame place fleet final :=
  fun other different => (second other different).trans (first other different)

theorem Frame.owned
    {other : String × String}
    (frame : Frame place fleet final)
    (different : other ≠ place) :
    Owned lockId final other ↔ Owned lockId fleet other := by
  simp only [Owned, frame other different]

/-- The output of a command that installed a lock. -/
def Installed (output : CommandOutput) : Prop :=
  output.success = true ∧ output.stdout ≠ .held

/-- A command installed a lock, but the operator was not told. -/
def LostInstall (call : Call HostCommand (Except String CommandOutput)) : Prop :=
  (∃ path info, call.request.command = .acquire path info) ∧
    (∃ output, call.answer = some (.ok output) ∧ Installed output) ∧
    ∃ error, call.reply = .error error

/-- A run has no such call. -/
def Informed (calls : List (Call HostCommand (Except String CommandOutput))) : Prop :=
  ∀ call ∈ calls, ¬LostInstall call

theorem informed_append
    {calls rest : List (Call HostCommand (Except String CommandOutput))} :
    Informed (calls ++ rest) ↔ Informed calls ∧ Informed rest :=
  List.forall_mem_append

variable {host path : String} {command : LockCommand} {fate : Fate Unit String}

/-- A command that is reached is performed on its host. -/
theorem settle_command (fleet : Fleet) (host : String) (command : LockCommand)
    (fate : Fate Unit String) :
    ((fleetWorld.settle fleet ⟨host, command⟩ fate).2 = fleet ∧
        (fleetWorld.settle fleet ⟨host, command⟩ fate).1.answer = none) ∨
      ((fleetWorld.settle fleet ⟨host, command⟩ fate).2 =
          Function.update fleet host (command.perform (fleet host)).2 ∧
        (fleetWorld.settle fleet ⟨host, command⟩ fate).1.answer =
          some (.ok (command.perform (fleet host)).1)) := by
  cases fate with
  | answered input => exact Or.inr ⟨rfl, rfl⟩
  | lost input reason => exact Or.inr ⟨rfl, rfl⟩
  | unreached reason => exact Or.inl ⟨rfl, rfl⟩

/-- A command that is answered was performed on its host. -/
theorem settle_answered
    (replied : (fleetWorld.settle fleet ⟨host, command⟩ fate).1.reply = .ok output) :
    (fleetWorld.settle fleet ⟨host, command⟩ fate).1.answer = some (.ok output) ∧
      output = (command.perform (fleet host)).1 ∧
      (fleetWorld.settle fleet ⟨host, command⟩ fate).2 =
        Function.update fleet host (command.perform (fleet host)).2 := by
  obtain ⟨answered, input, performed⟩ :=
    fleetWorld.performed_of_reply replied (by simp [fleetWorld])
  obtain ⟨same, reached⟩ := Prod.mk.inj performed
  exact ⟨answered, (Except.ok.inj same).symm, reached.symm⟩

/-- A run of a single command. -/
theorem runs_execute
    (runs : Script.Runs fleetWorld (execute host command) fleet (some outcome) calls final) :
    ∃ fate, calls = [(fleetWorld.settle fleet ⟨host, command⟩ fate).1] ∧
      final = (fleetWorld.settle fleet ⟨host, command⟩ fate).2 ∧
      outcome = (fleetWorld.settle fleet ⟨host, command⟩ fate).1.reply :=
  Script.Runs.ask_some runs

/-- A command that changes nothing but its own path acts at one place. -/
theorem frame_of_settle
    (kept : ∀ files other, other ≠ path → (command.perform files).2 other = files other) :
    Frame (host, path) fleet (fleetWorld.settle fleet ⟨host, command⟩ fate).2 := by
  rintro ⟨otherHost, otherPath⟩ different
  rcases settle_command fleet host command fate with ⟨same, _⟩ | ⟨same, _⟩
  · rw [same]
  · rw [same]
    rcases eq_or_ne otherHost host with rfl | elsewhere
    · rw [Function.update_self]
      exact kept _ _ fun samePath => different (congrArg (Prod.mk otherHost) samePath)
    · rw [Function.update_of_ne elsewhere]

/-- A command that empties its path leaves no lock there that was not there before. -/
theorem unowned_of_settle
    (emptied : ∀ files, (command.perform files).2 = Function.update files path none ∨
      (command.perform files).2 = files)
    (unowned : ¬Owned lockId fleet (host, path)) :
    ¬Owned lockId (fleetWorld.settle fleet ⟨host, command⟩ fate).2 (host, path) := by
  rcases settle_command fleet host command fate with ⟨same, _⟩ | ⟨same, _⟩
  · rwa [same]
  · rw [same]
    rcases emptied (fleet host) with removed | kept
    · simp [Owned, removed]
    · simpa [Owned, kept] using unowned

/-- A claim acts on its own path alone. -/
theorem perform_acquire_frame
    (files : LockFiles)
    (other : String)
    (different : other ≠ path) :
    ((LockCommand.acquire path info).perform files).2 other = files other := by
  by_cases ready : files (pendingPath path (info.lockId.getD "")) = none
  · by_cases vacant : Vacant files path
    · rw [perform_acquire_vacant ready vacant]
      exact Function.update_of_ne different _ _
    · rw [perform_acquire_held ready vacant]
  · obtain ⟨stderr, failed⟩ := perform_acquire_blocked ready
    rw [failed]

/-- A claim of a path that another invocation owns, or nobody, makes it one's own exactly
if the command reports that it installed the lock. -/
theorem perform_acquire_installed
    (named : info.lockId = some lockId)
    (foreign : ∀ contents, files path = some (.directory (some contents)) →
      contents.lockId ≠ some lockId) :
    (∃ contents, ((LockCommand.acquire path info).perform files).2 path =
        some (.directory (some contents)) ∧ contents.lockId = some lockId) ↔
      Installed ((LockCommand.acquire path info).perform files).1 := by
  by_cases ready : files (pendingPath path (info.lockId.getD "")) = none
  · by_cases vacant : Vacant files path
    · rw [perform_acquire_vacant ready vacant]
      simp [Installed, CommandOutput.success, LockContents.lockId, named]
    · rw [perform_acquire_held ready vacant]
      simpa [Installed] using foreign
  · obtain ⟨stderr, failed⟩ := perform_acquire_blocked ready
    rw [failed]
    simpa [Installed, CommandOutput.success] using foreign

/-- A claim makes the lock one's own exactly if it is performed and installs it. -/
theorem owned_of_settle_acquire
    (named : info.lockId = some lockId)
    (unowned : ¬Owned lockId fleet (host, path)) :
    Owned lockId (fleetWorld.settle fleet ⟨host, .acquire path info⟩ fate).2 (host, path) ↔
      ∃ output, (fleetWorld.settle fleet ⟨host, .acquire path info⟩ fate).1.answer =
        some (.ok output) ∧ Installed output := by
  have foreign : ∀ contents, fleet host path = some (.directory (some contents)) →
      contents.lockId ≠ some lockId :=
    fun contents found own => unowned ⟨contents, found, own⟩
  rcases settle_command fleet host (.acquire path info) fate with
    ⟨same, answer⟩ | ⟨same, answer⟩
  · simp [same, answer, unowned]
  · rw [same, answer]
    simpa [Owned] using perform_acquire_installed named foreign

end Calls

section Claims

variable {lockId : String} {fleet final : Fleet} {place : String × String}
variable {calls : List (Call HostCommand (Except String CommandOutput))}

/-- A script that takes the lock at a place and tells the truth: it touches no other place,
the lock is its own afterwards exactly if it says so or was not told, and in the latter
case it fails. -/
def Truthful
    (lockId : String)
    (place : String × String)
    (script : Session (Except String AcquireResult)) : Prop :=
  ∀ fleet result calls final, ¬Owned lockId fleet place →
    Script.Runs fleetWorld script fleet (some result) calls final →
    Frame place fleet final ∧
      (Owned lockId final place ↔ result = .ok .acquired ∨ ¬Informed calls) ∧
      (¬Informed calls → ∃ error, result = .error error)

/-- A script that works at a place without taking the lock there. -/
def Harmless {α : Type} (lockId : String) (place : String × String) (script : Session α) :
    Prop :=
  ∀ fleet result calls final, ¬Owned lockId fleet place →
    Script.Runs fleetWorld script fleet (some result) calls final →
    Frame place fleet final ∧ ¬Owned lockId final place ∧ Informed calls

theorem truthful_held (holder : Option LockInfo) :
    Truthful lockId place (.done (.ok (.held holder))) := by
  intro fleet result calls final unowned runs
  cases runs with
  | done => simp [Frame, unowned, Informed]

theorem Harmless.andThen
    {α : Type}
    {script : Session (Except String α)}
    {next : α → Session (Except String AcquireResult)}
    (harmless : Harmless lockId place script)
    (truthful : ∀ value, Truthful lockId place (next value)) :
    Truthful lockId place (script.andThen next) := by
  intro fleet result calls final unowned runs
  rcases runs.andThen_cases with ⟨cut, _⟩ | ⟨error, same, failed⟩ |
    ⟨value, before, after, middle, first, rest, rfl⟩
  · simp at cut
  · obtain rfl := Option.some.inj same
    obtain ⟨frame, still, informed⟩ := harmless _ _ _ _ unowned failed
    exact ⟨frame, by simp [still, informed], fun lost => absurd informed lost⟩
  · obtain ⟨frame, still, informed⟩ := harmless _ _ _ _ unowned first
    obtain ⟨restFrame, owned, fails⟩ := truthful value _ _ _ _ still rest
    simp only [informed_append, informed, true_and]
    exact ⟨frame.trans restFrame, owned, fails⟩

/-- A command that at most empties its path is harmless. -/
theorem harmless_execute
    {host path : String}
    {command : LockCommand}
    (emptied : ∀ files, (command.perform files).2 = Function.update files path none ∨
      (command.perform files).2 = files)
    (notAcquire : ∀ target info, command ≠ .acquire target info) :
    Harmless lockId (host, path) (execute host command) := by
  intro fleet result calls final unowned runs
  obtain ⟨fate, rfl, rfl, rfl⟩ := runs_execute runs
  refine ⟨frame_of_settle fun files other different => ?_, unowned_of_settle emptied unowned, ?_⟩
  · rcases emptied files with removed | kept
    · rw [removed, Function.update_of_ne different]
    · rw [kept]
  · intro call member
    rw [List.mem_singleton] at member
    rintro ⟨⟨target, info, same⟩, _⟩
    rw [member, World.settle_request] at same
    exact notAcquire target info same

/-- What follows a harmless part without further calls is harmless. -/
theorem Harmless.map
    {α β : Type}
    {script : Session (Except String α)}
    {next : α → Session (Except String β)}
    (harmless : Harmless lockId place script)
    (quiet : ∀ value, ∃ outcome, next value = .done outcome) :
    Harmless lockId place (script.andThen next) := by
  intro fleet result calls final unowned runs
  obtain ⟨outcome, first⟩ := runs.andThen_quiet quiet
  exact harmless _ _ _ _ unowned first

theorem harmless_readLock {host path : String} :
    Harmless lockId (host, path) (readLock host path) := by
  refine (harmless_execute (fun files => Or.inr ?_) (by simp)).map fun _ => ⟨_, rfl⟩
  obtain ⟨stdout, performed⟩ := @perform_read files path
  rw [performed]

theorem harmless_recoverIncompleteLock {host path : String} :
    Harmless lockId (host, path) (recoverIncompleteLock host path) := by
  refine (harmless_execute (fun files => Or.inl ?_) (by simp)).map fun output => ?_
  · rw [perform_recover]
  · split <;> exact ⟨_, rfl⟩

/-- Whether the operator was told of a claim. -/
theorem informed_acquire
    {fate : Fate Unit String} :
    Informed [(fleetWorld.settle fleet ⟨host, .acquire path info⟩ fate).1] ↔
      ((∃ output, (fleetWorld.settle fleet ⟨host, .acquire path info⟩ fate).1.answer =
          some (.ok output) ∧ Installed output) →
        ∃ output, (fleetWorld.settle fleet ⟨host, .acquire path info⟩ fate).1.reply =
          .ok output) := by
  have requested : ∃ target other,
      (fleetWorld.settle fleet ⟨host, .acquire path info⟩ fate).1.request.command =
        .acquire target other :=
    ⟨path, info, by rw [World.settle_request]⟩
  simp only [Informed, List.mem_singleton, forall_eq, LostInstall, requested, not_and,
    true_imp_iff]
  refine imp_congr_right fun _ => ?_
  cases (fleetWorld.settle fleet ⟨host, .acquire path info⟩ fate).1.reply <;> simp

/-- Claiming a lock is truthful, if what follows contention is. -/
theorem truthful_claim
    {host path : String}
    {info : LockInfo}
    (named : info.lockId = some lockId)
    (truthful : Truthful lockId (host, path) contended) :
    Truthful lockId (host, path)
      ((execute host (.acquire path info)).andThen fun output =>
        if output.success ∧ output.stdout = .held then contended
        else concludeAcquire host path output) := by
  intro fleet result calls final unowned runs
  rcases runs.andThen_cases with ⟨cut, _⟩ | ⟨error, same, failed⟩ |
    ⟨output, before, after, middle, first, rest, rfl⟩
  · simp at cut
  · obtain rfl := Option.some.inj same
    obtain ⟨fate, rfl, rfl, replied⟩ := runs_execute failed
    refine ⟨frame_of_settle perform_acquire_frame, ?_, fun _ => ⟨error, rfl⟩⟩
    rw [owned_of_settle_acquire named unowned, informed_acquire, ← replied]
    simp
  · obtain ⟨fate, rfl, rfl, replied⟩ := runs_execute first
    obtain ⟨answer, _, _⟩ := settle_answered replied.symm
    have frame := @frame_of_settle fleet host path (.acquire path info) fate perform_acquire_frame
    have owned := @owned_of_settle_acquire lockId fleet host path fate info named unowned
    have informed : Informed [(fleetWorld.settle fleet ⟨host, .acquire path info⟩ fate).1] :=
      informed_acquire.mpr fun _ => ⟨output, replied.symm⟩
    simp only [answer, Option.some.injEq, Except.ok.injEq, exists_eq_left'] at owned
    simp only [informed_append, informed, true_and]
    split at rest
    · rename_i held
      obtain ⟨restFrame, restOwned, fails⟩ := truthful _ _ _ _
        (fun own => (owned.mp own).2 held.2) rest
      exact ⟨frame.trans restFrame, restOwned, fails⟩
    · rename_i free
      unfold concludeAcquire at rest
      split at rest
      · rename_i success
        cases rest with
        | done =>
            have own := owned.mpr ⟨success, fun held => free ⟨success, held⟩⟩
            exact ⟨frame, by simp [own], fun lost => absurd (by simp [Informed]) lost⟩
      · rename_i failure
        cases rest with
        | done =>
            have foreign := mt owned.mp fun installed => failure installed.1
            exact ⟨frame, by simp [foreign, Informed], fun _ => ⟨_, rfl⟩⟩

theorem truthful_acquireLock
    {host path : String}
    {info : LockInfo}
    (named : info.lockId = some lockId) :
    Truthful lockId (host, path) (acquireLock host path info) := by
  refine truthful_claim named (harmless_readLock.andThen fun holder => ?_)
  cases holder with
  | some holder => exact truthful_held (some holder)
  | none =>
      refine harmless_recoverIncompleteLock.andThen fun _ => truthful_claim named ?_
      exact harmless_readLock.andThen truthful_held

end Claims

section Passes

variable {lockId project : String} {sessions : List String} {info : LockInfo} {now : ℕ}
variable {locks : List LockRequest}
variable {fleet final : Fleet} {progress : Progress}
variable {calls made : List (Call HostCommand (Except String CommandOutput))}

/-- What a pass knows of the locks it works on.  It owns those that it acquired; it owns
another one exactly if it was not told, and then it has a hard failure. -/
structure Settled
    (lockId project : String)
    (locks : List LockRequest)
    (progress : Progress)
    (fleet : Fleet)
    (calls : List (Call HostCommand (Except String CommandOutput))) : Prop where
  requested : progress.acquired ⊆ locks
  distinct : (progress.acquired.map (LockRequest.place project)).Nodup
  owned : ∀ request ∈ progress.acquired, Owned lockId fleet (request.place project)
  leaked : ¬Informed calls ↔ ∃ request ∈ locks, Owned lockId fleet (request.place project) ∧
    request ∉ progress.acquired
  failed : ¬Informed calls → progress.hardFailure = true ∧ progress.failures ≠ []

theorem record_acquired (request : LockRequest) :
    progress.record now request (.ok .acquired) =
      { progress with acquired := progress.acquired ++ [request] } := rfl

/-- A result other than an acquisition is a failure. -/
theorem record_failed
    (now : ℕ)
    (request : LockRequest)
    (failure : result ≠ .ok .acquired) :
    (progress.record now request result).acquired = progress.acquired ∧
      (progress.record now request result).failures ≠ [] ∧
      (progress.hardFailure = true ∨ (∃ error, result = .error error) →
        (progress.record now request result).hardFailure = true) := by
  cases result with
  | error error => simp [Progress.record]
  | ok outcome =>
      cases outcome with
      | acquired => exact absurd rfl failure
      | held holder => cases holder <;> simp [Progress.record]

/-- Settling one more request. -/
theorem Settled.record
    (now : ℕ)
    (settled : Settled lockId project locks progress fleet calls)
    (places : Set.InjOn (LockRequest.place project) { request | request ∈ locks })
    (member : request ∈ locks)
    (unowned : ¬Owned lockId fleet (request.place project))
    (frame : Frame (request.place project) fleet final)
    (owned : Owned lockId final (request.place project) ↔
      result = .ok .acquired ∨ ¬Informed made)
    (fails : ¬Informed made → ∃ error, result = .error error) :
    Settled lockId project locks (progress.record now request result) final (calls ++ made) := by
  have others : ∀ other ∈ locks, other ≠ request →
      (Owned lockId final (other.place project) ↔ Owned lockId fleet (other.place project)) :=
    fun other among different => frame.owned fun same => different (places among member same)
  have notYet : request ∉ progress.acquired := fun acquired =>
    unowned (settled.owned request acquired)
  have kept : ∀ other ∈ progress.acquired, Owned lockId final (other.place project) := by
    intro other acquired
    refine (others other (settled.requested acquired) ?_).mpr (settled.owned other acquired)
    rintro rfl
    exact notYet acquired
  by_cases success : result = .ok .acquired
  · subst success
    have informed : Informed made := by
      by_contra lost
      obtain ⟨error, failed⟩ := fails lost
      simp at failed
    rw [record_acquired]
    constructor
    · exact List.append_subset.mpr ⟨settled.requested, by simpa using member⟩
    · rw [List.map_append, List.map_singleton, ← List.concat_eq_append]
      refine settled.distinct.concat fun taken => ?_
      obtain ⟨other, acquired, same⟩ := List.mem_map.mp taken
      obtain rfl := places (settled.requested acquired) member same
      exact notYet acquired
    · rw [List.forall_mem_append, List.forall_mem_singleton]
      exact ⟨kept, owned.mpr (Or.inl rfl)⟩
    · simp only [informed_append, informed, and_true, settled.leaked, List.mem_append,
        List.mem_singleton, not_or]
      refine exists_congr fun other => and_congr_right fun among => ?_
      constructor
      · rintro ⟨own, missing⟩
        have different : other ≠ request := by
          rintro rfl
          exact unowned own
        exact ⟨(others other among different).mpr own, missing, different⟩
      · rintro ⟨own, missing, different⟩
        exact ⟨(others other among different).mp own, missing⟩
    · simp only [informed_append, informed, and_true]
      exact settled.failed
  · obtain ⟨sameAcquired, failures, hard⟩ := record_failed now request success
    constructor
    · rw [sameAcquired]
      exact settled.requested
    · rw [sameAcquired]
      exact settled.distinct
    · rw [sameAcquired]
      exact kept
    · rw [informed_append, not_and_or, settled.leaked, sameAcquired]
      constructor
      · rintro (⟨other, among, own, missing⟩ | lost)
        · have different : other ≠ request := by
            rintro rfl
            exact unowned own
          exact ⟨other, among, (others other among different).mpr own, missing⟩
        · exact ⟨request, member, owned.mpr (Or.inr lost), notYet⟩
      · rintro ⟨other, among, own, missing⟩
        by_cases same : other = request
        · subst same
          exact Or.inr ((owned.mp own).resolve_left success)
        · exact Or.inl ⟨other, among, (others other among same).mp own, missing⟩
    · rw [informed_append, not_and_or]
      exact fun lost => ⟨hard (lost.imp (fun before => (settled.failed before).1) fails), failures⟩

/-- The place of every lock outside a list of requests is as before. -/
def FrameAll (project : String) (requests : List LockRequest) (before after : Fleet) : Prop :=
  ∀ place, place ∉ requests.map (LockRequest.place project) →
    after place.1 place.2 = before place.1 place.2

theorem FrameAll.owned
    {requests : List LockRequest}
    {place : String × String}
    (frame : FrameAll project requests fleet final)
    (outside : place ∉ requests.map (LockRequest.place project)) :
    Owned lockId final place ↔ Owned lockId fleet place := by
  simp only [Owned, frame place outside]

theorem FrameAll.cons
    (first : Frame (request.place project) fleet middle)
    (rest : FrameAll project requests middle final) :
    FrameAll project (request :: requests) fleet final := by
  intro place outside
  rw [List.map_cons, List.mem_cons, not_or] at outside
  rw [rest place outside.2, first place outside.1]

/-- Claiming the locks of a group settles its requests. -/
theorem Settled.collect
    (now : ℕ)
    (settled : Settled lockId project locks progress fleet calls)
    (named : info.lockId = some lockId)
    (places : Set.InjOn (LockRequest.place project) { request | request ∈ locks })
    (distinct : (group.map (LockRequest.place project)).Nodup)
    (among : group ⊆ locks)
    (unowned : ∀ request ∈ group, ¬Owned lockId fleet (request.place project))
    (runs : Script.Runs fleetWorld (Script.collect (claim project info) group) fleet
      (some results) made final) :
    Settled lockId project locks ((group.zip results).foldl (fun progress (request, result) =>
        progress.record now request result) progress) final (calls ++ made) ∧
      FrameAll project group fleet final := by
  induction group generalizing progress fleet calls made results with
  | nil =>
      cases runs with
      | done => exact ⟨by simpa using settled, fun _ _ => rfl⟩
  | cons request group inductionHypothesis =>
      obtain ⟨result, before, after, middle, first, rest, rfl⟩ := runs.bind_some
      obtain ⟨others, between, last, reached, continued, finished, rfl⟩ := rest.bind_some
      cases finished with
      | done =>
          rw [List.map_cons, List.nodup_cons] at distinct
          rw [List.cons_subset] at among
          rw [List.forall_mem_cons] at unowned
          obtain ⟨frame, owned, fails⟩ := truthful_acquireLock named _ _ _ _ unowned.1 first
          have recorded := settled.record now places among.1 unowned.1 frame owned fails
          have still : ∀ other ∈ group, ¬Owned lockId middle (other.place project) := by
            intro other member own
            refine unowned.2 other member ((frame.owned fun same => distinct.1 ?_).mp own)
            exact List.mem_map.mpr ⟨other, member, same⟩
          obtain ⟨whole, frames⟩ :=
            inductionHypothesis recorded distinct.2 among.2 still continued
          refine ⟨?_, FrameAll.cons frame frames⟩
          simpa using whole

/-- Claiming group by group settles the requests that were reached; the others are as
before. -/
theorem Settled.claimGroups
    (settled : Settled lockId project locks progress fleet calls)
    (named : info.lockId = some lockId)
    (places : Set.InjOn (LockRequest.place project) { request | request ∈ locks })
    (distinct : (groups.flatten.map (LockRequest.place project)).Nodup)
    (among : groups.flatten ⊆ locks)
    (unowned : ∀ request ∈ groups.flatten, ¬Owned lockId fleet (request.place project))
    (runs : Script.Runs fleetWorld (Cli.claimGroups project sessions info now groups progress)
      fleet (some (.ok reached)) made final) :
    Settled lockId project locks reached final (calls ++ made) := by
  induction groups generalizing progress fleet calls made with
  | nil =>
      cases runs with
      | done => simpa using settled
  | cons group groups inductionHypothesis =>
      unfold Cli.claimGroups at runs
      split at runs
      · split at runs
        swap
        · cases runs
        obtain ⟨results, before, after, middle, first, rest, rfl⟩ := runs.bind_some
        rw [List.flatten_cons, List.map_append, List.nodup_append'] at distinct
        rw [List.flatten_cons, List.append_subset] at among
        rw [List.flatten_cons, List.forall_mem_append] at unowned
        obtain ⟨recorded, frames⟩ :=
          settled.collect now named places distinct.1 among.1 unowned.1 first
        rw [← List.append_assoc]
        refine inductionHypothesis recorded distinct.2.1 among.2 (fun other member own => ?_) rest
        refine unowned.2 other member ((frames.owned fun inside => ?_).mp own)
        exact distinct.2.2 inside (List.mem_map_of_mem member)
      · cases runs with
        | done => simpa using settled

/-- A call that releases a lock is answered. -/
def Answered (call : Call HostCommand (Except String CommandOutput)) : Prop :=
  ∀ path lockId, call.request.command = .release path lockId →
    ∃ output, call.reply = .ok output

/-- A release that is answered gives a lock back that was one's own. -/
theorem runs_releaseOwnedLock
    (own : Owned lockId fleet (host, path))
    (runs : Script.Runs fleetWorld (releaseOwnedLock host path lockId) fleet (some result) made
      final)
    (answered : ∀ call ∈ made, Answered call) :
    Frame (host, path) fleet final ∧ ¬Owned lockId final (host, path) ∧ Informed made := by
  have quiet : ∀ output : CommandOutput, ∃ outcome : Except String ReleaseOwnedResult,
      (if output.code = 76 then .done (.ok .alreadyGone)
        else if output.code = 75 then .done (.ok .noLongerOwned)
        else if output.success then .done (.ok .released)
        else .done (.error
          s!"Could not release lock at {path} on {host}: {output.stderr}") : Session _) =
        .done outcome := by
    intro output
    split
    · exact ⟨_, rfl⟩
    · split
      · exact ⟨_, rfl⟩
      · split <;> exact ⟨_, rfl⟩
  obtain ⟨outcome, released⟩ := runs.andThen_quiet quiet
  obtain ⟨fate, rfl, rfl, rfl⟩ := runs_execute released
  have requested := fleetWorld.settle_request fleet ⟨host, .release path lockId⟩ fate
  obtain ⟨output, replied⟩ := answered _ (List.mem_singleton_self _) path lockId
    (congrArg HostCommand.command requested)
  obtain ⟨_, _, reached⟩ := settle_answered replied
  obtain ⟨contents, found, owner⟩ := own
  rw [perform_release_own found owner] at reached
  rw [reached]
  refine ⟨?_, ?_, ?_⟩
  · rintro ⟨otherHost, otherPath⟩ different
    rcases eq_or_ne otherHost host with rfl | elsewhere
    · simp only [Function.update_self]
      exact Function.update_of_ne (fun same => different (congrArg _ same)) _ _
    · rw [Function.update_of_ne elsewhere]
  · simp [Owned]
  · intro call member
    rw [List.mem_singleton] at member
    rintro ⟨⟨target, info, same⟩, _⟩
    rw [member, requested] at same
    simp at same

/-- Rolling back gives every acquired lock back. -/
theorem runs_releaseRequests
    (distinct : (requests.map (LockRequest.place project)).Nodup)
    (owned : ∀ request ∈ requests, Owned lockId fleet (request.place project))
    (runs : Script.Runs fleetWorld (releaseRequests project lockId requests) fleet (some outcome)
      made final)
    (answered : ∀ call ∈ made, Answered call) :
    FrameAll project requests fleet final ∧
      (∀ request ∈ requests, ¬Owned lockId final (request.place project)) ∧ Informed made := by
  obtain ⟨results, before, after, middle, collected, finished, rfl⟩ := runs.bind_some
  cases finished with
  | done =>
      rw [List.append_nil] at answered ⊢
      clear runs
      induction requests generalizing fleet before results with
      | nil =>
          cases collected with
          | done => exact ⟨fun _ _ => rfl, by simp, by simp [Informed]⟩
      | cons request requests inductionHypothesis =>
          obtain ⟨result, first, after, between, released, rest, rfl⟩ := collected.bind_some
          obtain ⟨others, second, last, reached, continued, finished, rfl⟩ := rest.bind_some
          cases finished with
          | done =>
              rw [List.append_nil] at answered ⊢
              rw [List.map_cons, List.nodup_cons] at distinct
              rw [List.forall_mem_cons] at owned
              rw [List.forall_mem_append] at answered
              obtain ⟨frame, gone, informed⟩ :=
                runs_releaseOwnedLock owned.1 released answered.1
              have still : ∀ other ∈ requests, Owned lockId between (other.place project) := by
                intro other member
                refine (frame.owned fun same => distinct.1 ?_).mpr (owned.2 other member)
                exact List.mem_map.mpr ⟨other, member, same⟩
              obtain ⟨frames, allGone, restInformed⟩ :=
                inductionHypothesis distinct.2 still _ _ answered.2 continued
              refine ⟨FrameAll.cons frame frames, ?_, informed_append.mpr ⟨informed, restInformed⟩⟩
              rw [List.forall_mem_cons]
              exact ⟨fun own => gone ((frames.owned distinct.1).mp own), allGone⟩

/-- A forced removal takes no lock. -/
theorem runs_forceRemoveAll
    (unowned : ∀ request ∈ locks, ¬Owned lockId fleet (request.place project))
    (runs : Script.Runs fleetWorld (forceRemoveAll project sessions requests) fleet (some outcome)
      made final) :
    (∀ request ∈ locks, ¬Owned lockId final (request.place project)) ∧ Informed made := by
  have uses : (forceRemoveAll project sessions requests).Uses fun request =>
      ∃ path, request.command = .forceRemove path := by
    unfold forceRemoveAll
    split
    · refine Script.Uses.bind (Script.Uses.collect fun request _ => ?_) fun results => ?_
      · refine Script.Uses.andThen ⟨⟨_, rfl⟩, fun _ => trivial⟩ fun output => ?_
        split <;> trivial
      · split <;> trivial
    · trivial
  have removed : ∀ (files : LockFiles) (path : String),
      ((LockCommand.forceRemove path).perform files).2 = Function.update files path none :=
    fun files path => by rw [perform_forceRemove]
  have kept : Script.Triple fleetWorld (fun _ => True)
      (fun fleet => ∀ request ∈ locks, ¬Owned lockId fleet (request.place project))
      (forceRemoveAll project sessions requests)
      fun _ fleet => ∀ request ∈ locks, ¬Owned lockId fleet (request.place project) := by
    refine .of_uses uses ?_
    rintro fleet ⟨host, command⟩ fate ⟨path, rfl⟩ _ unowned request member
    by_cases same : request.place project = (host, path)
    · rw [same]
      exact unowned_of_settle (fun files => Or.inl (removed files path))
        (same ▸ unowned request member)
    · have frame := @frame_of_settle fleet host path (.forceRemove path) fate
        fun files other different => by rw [removed, Function.update_of_ne different]
      exact fun own => unowned request member ((frame.owned same).mp own)
  constructor
  · exact kept fleet (some outcome) made final runs (fun _ _ => trivial) unowned
  · intro call member
    obtain ⟨path, forced⟩ := runs.requests_allowed uses call member
    rintro ⟨⟨target, info, same⟩, _⟩
    rw [forced] at same
    simp at same

/-- A failed pass, with its retries, leaves a lock behind exactly if the operator was not
told of one. -/
def Accounted
    (lockId project : String)
    (locks : List LockRequest)
    (script : Session (Except AcquireError OwnedDeploymentLocks)) : Prop :=
  ∀ fleet message calls final,
    (∀ request ∈ locks, ¬Owned lockId fleet (request.place project)) →
    Script.Runs fleetWorld script fleet (some (.error (.failed message))) calls final →
    (∀ call ∈ calls, Answered call) →
    ((∀ request ∈ locks, ¬Owned lockId final (request.place project)) ↔ Informed calls)

/-- At the beginning of a pass nothing is settled. -/
theorem settled_nothing
    (unowned : ∀ request ∈ locks, ¬Owned lockId fleet (request.place project)) :
    Settled lockId project locks ⟨[], [], false⟩ fleet [] where
  requested := by simp
  distinct := by simp
  owned := by simp
  leaked := by simpa [Informed] using unowned
  failed := by simp [Informed]

/-- After the rollback, exactly the locks are left that the operator was not told of. -/
theorem Settled.rolledBack
    (settled : Settled lockId project locks progress fleet calls)
    (places : Set.InjOn (LockRequest.place project) { request | request ∈ locks })
    (runs : Script.Runs fleetWorld (releaseRequests project lockId progress.acquired) fleet
      (some outcome) made final)
    (answered : ∀ call ∈ made, Answered call) :
    ((∀ request ∈ locks, ¬Owned lockId final (request.place project)) ↔ Informed calls) ∧
      Informed made := by
  obtain ⟨frames, gone, informed⟩ :=
    runs_releaseRequests settled.distinct settled.owned runs answered
  refine ⟨?_, informed⟩
  rw [← not_iff_not, settled.leaked]
  push Not
  refine exists_congr fun request => and_congr_right fun member => ?_
  by_cases acquired : request ∈ progress.acquired
  · simp [acquired, gone request acquired]
  · have outside : request.place project ∉ progress.acquired.map (LockRequest.place project) := by
      intro inside
      obtain ⟨other, held, same⟩ := List.mem_map.mp inside
      obtain rfl := places (settled.requested held) member same
      exact acquired held
    simp [acquired, frames.owned outside]

/-- Acquiring the locks group by group reports failures in the progress: it stops early only
by a panic. -/
theorem ne_failed_of_runs_claimGroups
    (runs : Script.Runs fleetWorld (claimGroups project sessions info now groups progress) fleet
      (some (.error error)) made final)
    (message : String) :
    error ≠ .failed message := by
  induction groups generalizing progress fleet made with
  | nil => cases runs
  | cons group groups inductionHypothesis =>
      unfold claimGroups at runs
      split at runs
      · split at runs
        · obtain ⟨_, _, _, _, _, rest, rfl⟩ := runs.bind_some
          exact inductionHypothesis rest
        · cases runs with
          | done => simp
      · cases runs

/-- A pass is accounted for if the retries are. -/
theorem accounted_acquirePass
    (named : info.lockId = some lockId)
    (permuted : sorted.Perm locks)
    (distinct : (locks.map (LockRequest.place project)).Nodup)
    (retries : ∀ script, next = some script → Accounted lockId project locks script) :
    Accounted lockId project locks (acquirePass project sessions info now force sorted next) := by
  intro fleet message calls final unowned runs answered
  have places : Set.InjOn (LockRequest.place project) { request | request ∈ locks } :=
    fun _ left _ right same => List.inj_on_of_nodup_map distinct left right same
  have forced : ∀ outcome calls final, Script.Runs fleetWorld
      (if force then forceRemoveAll project sessions sorted else .done (.ok ())) fleet
      (some outcome) calls final →
      (∀ request ∈ locks, ¬Owned lockId final (request.place project)) ∧ Informed calls := by
    intro outcome calls final runs
    split at runs
    · exact runs_forceRemoveAll unowned runs
    · cases runs with
      | done => exact ⟨unowned, by simp [Informed]⟩
  rcases runs.andThen_error with failed | ⟨value, before, after, middle, cleared, rest, rfl⟩
  · exact iff_of_true (forced _ _ _ failed).1 (forced _ _ _ failed).2
  · obtain ⟨free, informed⟩ := forced _ _ _ cleared
    rw [informed_append, and_iff_right informed]
    rw [List.forall_mem_append] at answered
    rcases rest.andThen_error with
      panicked | ⟨progress, claims, later, between, claimed, tail, rfl⟩
    · exact absurd rfl (ne_failed_of_runs_claimGroups panicked message)
    have flat : (rankGroups sorted).flatten = sorted := List.flatten_splitBy _ _
    have settled : Settled lockId project locks progress between ([] ++ claims) := by
      refine (settled_nothing free).claimGroups named places ?_ ?_ ?_ claimed
      · rw [flat]
        exact ((permuted.map _).nodup_iff).mpr distinct
      · rw [flat]
        exact permuted.subset
      · rw [flat]
        exact fun request member => free request (permuted.subset member)
    rw [List.nil_append] at settled
    rw [List.forall_mem_append] at answered
    by_cases complete : progress.failures = []
    · rw [if_pos complete] at tail
      cases tail
    · rw [if_neg complete] at tail
      obtain ⟨⟨warnings, errors⟩, releases, last, rolled, released, ending, rfl⟩ := tail.bind_some
      have identified : info.lockId.getD "" = lockId := by rw [named, Option.getD_some]
      rw [identified] at released
      rw [List.forall_mem_append] at answered
      obtain ⟨left, releasesTold⟩ := settled.rolledBack places released answered.2.2.1
      rw [informed_append, informed_append, and_iff_right releasesTold]
      cases next with
      | none =>
          cases ending with
          | done => simpa [Informed] using left
      | some script =>
          dsimp only at ending
          split at ending
          · cases ending with
            | done => simpa [Informed] using left
          · rename_i soft
            have claimsTold : Informed claims := by
              by_contra lost
              exact soft (Or.inl (settled.failed lost).1)
            rw [and_iff_right claimsTold]
            exact retries script rfl _ _ _ _ (left.mpr claimsTold) ending answered.2.2.2

theorem sortRequests_perm (project : String) (locks : List LockRequest) :
    (sortRequests project locks).Perm locks :=
  List.perm_insertionSort _ _

/-- For requests without duplicates and a lock identifier that is new, an acquisition that
fails although every release of the rollback is answered leaves none of its locks behind
exactly if no lock was installed without the operator being told. -/
theorem acquire_leaves_nothing_iff
    (lockId project : String)
    (sessions : List String)
    (info : LockInfo)
    (now : ℕ)
    (force : Bool)
    (locks : List LockRequest)
    (retries : ℕ)
    (fates : List (Fate Unit String))
    (fleet : Fleet)
    (message : String)
    (named : info.lockId = some lockId)
    (distinct : (locks.map (LockRequest.place project)).Nodup)
    (unowned : ∀ request ∈ locks, ¬Owned lockId fleet (request.place project))
    (failed : ((OwnedDeploymentLocks.acquire project sessions info now force locks retries).run
      fleetWorld fates fleet).result = some (.error (.failed message)))
    (answered : ∀ call ∈ ((OwnedDeploymentLocks.acquire project sessions info now force locks
      retries).run fleetWorld fates fleet).calls, Answered call) :
    (∀ request ∈ locks, ¬Owned lockId ((OwnedDeploymentLocks.acquire project sessions info now
        force locks retries).run fleetWorld fates fleet).state (request.place project)) ↔
      Informed ((OwnedDeploymentLocks.acquire project sessions info now force locks retries).run
        fleetWorld fates fleet).calls := by
  have accounted : Accounted lockId project locks
      (OwnedDeploymentLocks.acquire project sessions info now force locks retries) := by
    clear failed answered
    induction retries with
    | zero =>
        exact accounted_acquirePass named (sortRequests_perm project locks) distinct (by simp)
    | succ retries inductionHypothesis =>
        refine accounted_acquirePass named (sortRequests_perm project locks) distinct ?_
        intro script same
        obtain rfl := Option.some.inj same
        exact inductionHypothesis
  have runs := Script.runs_run fleetWorld
    (OwnedDeploymentLocks.acquire project sessions info now force locks retries) fates fleet
  rw [failed] at runs
  exact accounted fleet message _ _ unowned runs answered

end Passes

section Samples

/-- The metadata of a sample invocation. -/
def sampleInvocation (lockId : String) : LockInfo :=
  ⟨"jiji deploy", 1000, "op", 7, some lockId⟩

/-- Two locks on one host. -/
def sampleLocks : List LockRequest := [⟨.hostGlobalProxy, "a"⟩, ⟨.serviceScale "web", "a"⟩]

/-- The proxy lock is held by somebody else. -/
def sampleFleet : Fleet := fun _ path =>
  if path = hostGlobalProxyLockPath then
    some (.directory (some (.info (sampleInvocation "j"))))
  else none

/-- A sample acquisition. -/
def sampleAcquisition (fates : List (Fate Unit String)) (fleet : Fleet) :
    Execution HostCommand (Except String CommandOutput) Fleet
      (Except AcquireError OwnedDeploymentLocks) :=
  (OwnedDeploymentLocks.acquire "p" ["a"] (sampleInvocation "i") 1060 false sampleLocks 0).run
    fleetWorld fates fleet

/-- A process ended with an error message. -/
def isFailed : Option (Except AcquireError OwnedDeploymentLocks) → Bool
  | some (.error (.failed _)) => true
  | _ => false

theorem exists_failed
    {result : Option (Except AcquireError OwnedDeploymentLocks)}
    (failed : isFailed result = true) :
    ∃ message, result = some (.error (.failed message)) := by
  match result with
  | some (.error (.failed message)) => exact ⟨message, rfl⟩

theorem exists_ok_of_isOk
    {reply : Except String CommandOutput}
    (ok : reply.isOk = true) :
    ∃ output, reply = .ok output := by
  cases reply with
  | error error => simp [Except.isOk, Except.toBool] at ok
  | ok output => exact ⟨output, rfl⟩

/-- A lock that was acquired before another one turned out to be held is given back. -/
theorem acquire_leaves_nothing_held :
    isFailed (sampleAcquisition (List.replicate 4 (.answered ())) sampleFleet).result = true ∧
      ∀ request ∈ sampleLocks, ¬Owned "i"
        (sampleAcquisition (List.replicate 4 (.answered ())) sampleFleet).state
        (request.place "p") := by
  have fails : isFailed (sampleAcquisition (List.replicate 4 (.answered ()))
      sampleFleet).result = true := by decide
  refine ⟨fails, ?_⟩
  obtain ⟨message, failed⟩ := exists_failed fails
  have replied : ∀ call ∈ (sampleAcquisition (List.replicate 4 (.answered ()))
      sampleFleet).calls, call.reply.isOk = true := by decide
  refine (acquire_leaves_nothing_iff "i" "p" ["a"] (sampleInvocation "i") 1060 false
    sampleLocks 0 (List.replicate 4 (.answered ())) sampleFleet message rfl (by decide)
    (by decide) failed ?_).mpr ?_
  · exact fun call member _ _ _ => exists_ok_of_isOk (replied call member)
  · rintro call member ⟨_, _, error, lost⟩
    obtain ⟨output, told⟩ := exists_ok_of_isOk (replied call member)
    simp [lost] at told

/-- The command that installs the lock takes effect and its reply is lost: the invocation
fails without a release to roll back, and its lock stays. -/
theorem lost_reply_leaves_lock :
    (∃ message, (sampleAcquisition [.lost () "connection reset"] fun _ _ => none).result =
        some (.error (.failed message))) ∧
      (∀ call ∈ (sampleAcquisition [.lost () "connection reset"] fun _ _ => none).calls,
        Answered call) ∧
      Owned "i" (sampleAcquisition [.lost () "connection reset"] fun _ _ => none).state
        ("a", ".jiji/p/locks/service/web.lock") := by
  refine ⟨exists_failed (by decide), ?_, by decide⟩
  have claims : ∀ call ∈ (sampleAcquisition [.lost () "connection reset"]
      fun _ _ => none).calls, call.request.command =
        .acquire ".jiji/p/locks/service/web.lock" (sampleInvocation "i") := by decide
  intro call member path lockId released
  simp [claims call member] at released

end Samples

end Cli
end Jiji
