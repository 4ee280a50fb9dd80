import Jiji.Cli.LockFiles
import Jiji.Control.Machine
import Jiji.Control.Protocol

/-!
# Mutual exclusion of locks

Any number of processes work on one lock path of a host, each under an identifier of its
own.  Their functions run step by step in any interleaving, and may be interrupted at any
point.  The lock excludes as long as no process recovers a lock that is complete: the
recovery removes the information file that is there when it runs, and not the one that was
missing when the process looked.
-/

namespace Jiji
namespace Cli

open Control

section System

/-- What a process is doing. -/
inductive Activity
  | idle
  | acquiring (remaining : Script FileOp FileReply (Except String AcquireResult))
  | releasing (remaining : Script FileOp FileReply (Except String ReleaseOwnedResult))

/-- A process, and whether it was told that it acquired the lock and has not removed it
since. -/
structure Process where
  activity : Activity
  holds : Bool

/-- A host with one process for each lock identifier. -/
structure LockHost where
  files : LockFiles
  processes : String → Process

inductive LockEvent
  | acquire (lockId : String)
  | release (lockId : String)
  | step (lockId : String)
  | interrupt (lockId : String)
  deriving DecidableEq

/-- The metadata of a process under its own identifier. -/
def ownInfo (infoOf : String → LockInfo) (lockId : String) : LockInfo :=
  { infoOf lockId with lockId := some lockId }

/-- A call to `acquireLock` returned with the lock. -/
def isAcquired : Except String AcquireResult → Bool
  | .ok .acquired => true
  | _ => false

theorem eq_acquired
    {result : Except String AcquireResult}
    (acquired : isAcquired result = true) :
    result = .ok .acquired := by
  unfold isAcquired at acquired
  split at acquired
  · rfl
  · simp at acquired

namespace LockHost

variable (host path : String) (infoOf : String → LockInfo)

def setProcess (system : LockHost) (lockId : String) (process : Process) : LockHost :=
  { system with processes := Function.update system.processes lockId process }

/-- The next step of a process. -/
def step (system : LockHost) (lockId : String) : Option LockHost :=
  let process := system.processes lockId
  match process.activity with
  | .idle => none
  | .acquiring (.done result) =>
      some (system.setProcess lockId ⟨.idle, process.holds || isAcquired result⟩)
  | .acquiring (.call op next) =>
      let (reply, files) := system.files.perform op
      some { system.setProcess lockId ⟨.acquiring (next reply), process.holds⟩ with
        files := files }
  | .releasing (.done _) => some (system.setProcess lockId ⟨.idle, process.holds⟩)
  | .releasing (.call op next) =>
      let (reply, files) := system.files.perform op
      some { system.setProcess lockId
          ⟨.releasing (next reply), process.holds && op ≠ .removeInfo path⟩ with
        files := files }

/-- One event on the host.  An idle process calls a function, a busy one goes on or is
interrupted. -/
def advance (system : LockHost) : LockEvent → Option LockHost
  | .acquire lockId =>
      match (system.processes lockId).activity with
      | .idle => some (system.setProcess lockId
          ⟨.acquiring (acquireLock host path (ownInfo infoOf lockId)).steps,
            (system.processes lockId).holds⟩)
      | _ => none
  | .release lockId =>
      match (system.processes lockId).activity with
      | .idle => some (system.setProcess lockId
          ⟨.releasing (releaseOwnedLock host path lockId).steps,
            (system.processes lockId).holds⟩)
      | _ => none
  | .step lockId => system.step path lockId
  | .interrupt lockId =>
      some (system.setProcess lockId ⟨.idle, (system.processes lockId).holds⟩)

/-- Nobody works on the lock, whatever stands at its path. -/
def initial (files : LockFiles) : LockHost := ⟨files, fun _ => ⟨.idle, false⟩⟩

end LockHost

/-- The interleavings of processes on one lock path. -/
def lockMachine (host path : String) (infoOf : String → LockInfo) :
    Machine LockHost LockEvent where
  advance := LockHost.advance host path infoOf

/-- A recovery that is about to remove the information file meets no complete lock. -/
def RecoversIncomplete (path : String) (system : LockHost) : LockEvent → Prop
  | .step lockId => ∀ next, (system.processes lockId).activity =
      .acquiring (.call (.removeInfo path) next) →
        ∀ info, system.files path ≠ some (.directory (some (.info info)))
  | _ => True

end System

section Files

variable {files : LockFiles} {path : String} {op : FileOp}

/-- The paths that a step may change. -/
def FileOp.touches : FileOp → List String
  | .makeDirectory path | .install path _ | .removeInfo path | .removeDirectory path
  | .removeFile path => [path]
  | .rename source target => [source, target]
  | .makeParents _ | .isDirectory _ | .pathExists _ | .readInfo _ => []

/-- A step leaves the other paths alone. -/
theorem LockFiles.perform_frame
    (untouched : path ∉ op.touches) :
    (files.perform op).2 path = files path := by
  cases op <;> simp only [FileOp.touches, List.mem_cons, List.not_mem_nil, or_false,
    not_or] at untouched <;> simp only [perform] <;> split <;>
    simp [Function.update, untouched]

/-- A complete lock stays until its information is removed. -/
theorem LockFiles.perform_complete
    {contents : LockContents}
    (complete : files path = some (.directory (some contents)))
    (notRemoved : op ≠ .removeInfo path)
    (notInstalled : ∀ other, op ≠ .install path other)
    (notMoved : ∀ target, op ≠ .rename path target) :
    (files.perform op).2 path = some (.directory (some contents)) := by
  by_cases touched : path ∈ op.touches
  · cases op with
    | makeDirectory target | removeDirectory target | removeFile target =>
        obtain rfl : path = target := by simpa [FileOp.touches] using touched
        simp [perform, complete]
    | install target other =>
        obtain rfl : path = target := by simpa [FileOp.touches] using touched
        exact absurd rfl (notInstalled other)
    | removeInfo target =>
        obtain rfl : path = target := by simpa [FileOp.touches] using touched
        exact absurd rfl notRemoved
    | rename source target =>
        rcases (by simpa [FileOp.touches] using touched : path = source ∨ path = target) with
          rfl | rfl
        · exact absurd rfl (notMoved target)
        · simp only [perform, complete]
          split <;> simp_all
    | makeParents | isDirectory | pathExists | readInfo =>
        simp [FileOp.touches] at touched
  · rw [perform_frame touched, complete]

end Files

section Protocols

/-- How far a process is in taking the lock: it has nothing to do with the lock, its
prepared lock is complete, or it renamed it to the lock's path. -/
inductive AcquirePhase
  | outside
  | staged
  | installed
  deriving DecidableEq

/-- How an acquisition touches the file system. -/
def acquireProtocol (path pending : String) (contents : LockContents) :
    Protocol FileOp FileReply AcquirePhase where
  allowed
    | .outside, .makeDirectory target => target = pending
    | .outside, .install target installed => target = pending ∧ installed = contents
    | .outside, .removeInfo target | .outside, .removeDirectory target =>
        target = pending ∨ target = path
    | .outside, .removeFile target => target = path
    | .outside, .rename _ _ => False
    | .outside, _ => True
    | .staged, op => op = .rename pending path ∨ op = .removeInfo pending
    | .installed, _ => False
  after
    | .outside, .install _ _, .failed _ => .outside
    | .outside, .install _ _, _ => .staged
    | .staged, .rename _ _, .failed _ => .staged
    | .staged, .rename _ _, _ => .installed
    | .staged, .removeInfo _, _ => .outside
    | phase, _, _ => phase

/-- What a phase of an acquisition says about the file system. -/
def AcquirePhase.Holds (path pending : String) (contents : LockContents) (files : LockFiles) :
    AcquirePhase → Prop
  | .outside => True
  | .staged => files pending = some (.directory (some contents))
  | .installed => files path = some (.directory (some contents))

/-- How far a process is in releasing the lock: it has not seen its own identifier, or it
has and has not removed the information yet. -/
inductive ReleasePhase
  | outside
  | verified
  deriving DecidableEq

/-- How a release touches the file system. -/
def releaseProtocol (path lockId : String) : Protocol FileOp FileReply ReleasePhase where
  allowed
    | .outside, op => op = .isDirectory path ∨ op = .readInfo path ∨ op = .removeDirectory path
    | .verified, op => op = .removeInfo path
  after
    | .outside, .readInfo _, .contents contents =>
        if contents.lockId = some lockId then .verified else .outside
    | .verified, .removeInfo _, _ => .outside
    | phase, _, _ => phase

/-- What a phase of a release says about the file system. -/
def ReleasePhase.Holds (path lockId : String) (files : LockFiles) : ReleasePhase → Prop
  | .outside => True
  | .verified => ∃ contents, files path = some (.directory (some contents)) ∧
      contents.lockId = some lockId

variable {path pending lockId : String} {contents : LockContents} {files : LockFiles}
variable {op : FileOp}

theorem AcquirePhase.Holds.perform
    {phase : AcquirePhase}
    (holds : phase.Holds path pending contents files)
    (allowed : (acquireProtocol path pending contents).allowed phase op) :
    ((acquireProtocol path pending contents).after phase op (files.perform op).1).Holds path
      pending contents (files.perform op).2 := by
  cases phase with
  | outside =>
      cases op with
      | install target installed =>
          obtain ⟨rfl, rfl⟩ := allowed
          simp only [LockFiles.perform]
          split
          · simp [acquireProtocol, AcquirePhase.Holds]
          · trivial
      | _ => trivial
  | staged =>
      rcases allowed with rfl | rfl
      · simp only [AcquirePhase.Holds] at holds
        simp only [LockFiles.perform, holds]
        split
        · rename_i same _
          obtain rfl := LockEntry.directory.inj (Option.some.inj same)
          simp [acquireProtocol, AcquirePhase.Holds]
        · rename_i same _
          obtain rfl := LockEntry.directory.inj (Option.some.inj same)
          simp [acquireProtocol, AcquirePhase.Holds]
        · exact holds
      · trivial
  | installed => exact allowed.elim

theorem ReleasePhase.Holds.perform
    {phase : ReleasePhase}
    (allowed : (releaseProtocol path lockId).allowed phase op) :
    ((releaseProtocol path lockId).after phase op (files.perform op).1).Holds path lockId
      (files.perform op).2 := by
  cases phase with
  | outside =>
      rcases allowed with rfl | rfl | rfl
      · trivial
      · simp only [LockFiles.perform]
        split
        · rename_i contents found
          simp only [releaseProtocol]
          split
          · rename_i own
            exact ⟨contents, found, own⟩
          · trivial
        · trivial
      · trivial
  | verified =>
      obtain rfl : op = .removeInfo path := allowed
      trivial

/-- A step that exits on failure follows a protocol if the rest does after a success. -/
theorem follows_orExit
    {π : Type}
    {protocol : Protocol FileOp FileReply π}
    {phase : π}
    {next : Shell}
    {ends : CommandOutput → π → Prop}
    (allowed : protocol.allowed phase op)
    (failed : ∀ stderr, ends ⟨code, .empty, stderr⟩
      (protocol.after phase op (.failed stderr)))
    (rest : ∀ reply, (∀ stderr, reply ≠ .failed stderr) →
      Script.Follows protocol (protocol.after phase op reply) next ends) :
    Script.Follows protocol phase (orExit op code next) ends := by
  refine ⟨allowed, fun reply => ?_⟩
  cases reply with
  | failed stderr => exact failed stderr
  | succeeded => exact rest .succeeded (by simp)
  | contents contents => exact rest (.contents contents) (by simp)

/-- The command that claims a lock ends with the lock installed, unless it fails or reports
contention. -/
theorem follows_acquireCommand
    {info : LockInfo} :
    Script.Follows
      (acquireProtocol path (pendingPath path (info.lockId.getD "")) (.info info)) .outside
      (acquireCommand path info)
      fun output phase => (output.stdout = .held → phase = .outside) ∧
        (output.success → output.stdout ≠ .held → phase = .installed) := by
  refine follows_orExit trivial (by simp [CommandOutput.success]) fun _ _ => ?_
  refine follows_orExit rfl (by simp [CommandOutput.success]) fun _ _ => ?_
  refine ⟨⟨rfl, rfl⟩, fun reply => ?_⟩
  cases reply with
  | failed stderr =>
      refine follows_orExit (Or.inl rfl) (by simp [CommandOutput.success]) fun _ _ => ?_
      simp [exit, Script.Follows, CommandOutput.success]
  | succeeded | contents =>
      refine ⟨Or.inl rfl, fun reply => ?_⟩
      cases reply with
      | failed stderr =>
          refine follows_orExit (Or.inr rfl) (by simp [CommandOutput.success]) fun _ _ => ?_
          refine follows_orExit (Or.inl rfl) (by simp [CommandOutput.success]) fun _ _ => ?_
          simp [Script.Follows, acquireProtocol]
      | succeeded | contents => simp [exit, Script.Follows, acquireProtocol]

theorem follows_readCommand :
    Script.Follows (acquireProtocol path pending contents) .outside (readCommand path)
      fun _ phase => phase = .outside := by
  refine ⟨trivial, fun reply => ?_⟩
  cases reply <;> rfl

theorem follows_recoverCommand :
    Script.Follows (acquireProtocol path pending contents) .outside (recoverCommand path)
      fun _ phase => phase = .outside := by
  refine ⟨trivial, fun reply => ?_⟩
  cases reply with
  | failed stderr =>
      refine ⟨trivial, fun reply => ?_⟩
      cases reply with
      | failed stderr => rfl
      | succeeded | contents => exact follows_orExit rfl (fun _ => rfl) fun _ _ => rfl
  | succeeded | contents => exact ⟨Or.inr rfl, fun _ => ⟨Or.inr rfl, fun _ => rfl⟩⟩

/-- A release removes the information of the lock only after it has seen its own
identifier. -/
theorem follows_releaseCommand :
    Script.Follows (releaseProtocol path lockId) .outside (releaseCommand path lockId)
      fun _ _ => True := by
  refine ⟨Or.inl rfl, fun reply => ?_⟩
  cases reply with
  | failed stderr => trivial
  | succeeded | contents =>
      refine ⟨Or.inr (Or.inl rfl), fun reply => ?_⟩
      cases reply with
      | failed stderr => trivial
      | succeeded => trivial
      | contents found =>
          dsimp only
          split
          · rename_i own
            simp only [releaseProtocol, own, if_true]
            refine follows_orExit rfl (fun _ => trivial) fun _ _ => ?_
            exact follows_orExit (Or.inr (Or.inr rfl)) (fun _ => trivial) fun _ _ => trivial
          · trivial

end Protocols

section Sessions

variable {α β π : Type} {protocol : Protocol FileOp FileReply π} {phase : π}
variable {host path pending lockId : String} {info : LockInfo}

theorem steps_andThen
    (session : Session (Except String α))
    (next : α → Session (Except String β)) :
    Session.steps (session.andThen next) =
      (Session.steps session).andThen fun value => Session.steps (next value) :=
  Script.expand_andThen _ session next

theorem follows_execute
    (follows : Script.Follows protocol phase command.shell ends) :
    Script.Follows protocol phase (Session.steps (execute host command))
      fun outcome reached => ∃ output, outcome = .ok output ∧ ends output reached := by
  have once : Session.steps (execute host command) =
      command.shell.bind fun output => .done (.ok output) := by
    rw [Session.steps, execute, Script.request, Script.expand, Script.bind_assoc]
    rfl
  rw [once]
  exact follows.bind fun output reached ended => ⟨output, rfl, ended⟩

theorem follows_readLock
    {contents : LockContents} :
    Script.Follows (acquireProtocol path pending contents) .outside
      (Session.steps (readLock host path)) fun _ phase => phase = .outside := by
  rw [readLock, steps_andThen]
  refine (follows_execute follows_readCommand).andThen ?_ ?_
  · rintro error reached ⟨_, _, ended⟩
    exact ended
  · rintro output reached ⟨_, _, ended⟩
    exact ended

theorem follows_recoverIncompleteLock
    {contents : LockContents} :
    Script.Follows (acquireProtocol path pending contents) .outside
      (Session.steps (recoverIncompleteLock host path)) fun _ phase => phase = .outside := by
  rw [recoverIncompleteLock, steps_andThen]
  refine (follows_execute follows_recoverCommand).andThen ?_ ?_
  · rintro error reached ⟨_, _, ended⟩
    exact ended
  · rintro output reached ⟨_, _, ended⟩
    split <;> exact ended

theorem follows_concludeAcquire
    {output : CommandOutput}
    {phase : AcquirePhase}
    (installed : output.success → phase = .installed) :
    Script.Follows (acquireProtocol path pending contents) phase
      (Session.steps (concludeAcquire host path output))
      fun result phase => result = .ok .acquired → phase = .installed := by
  unfold concludeAcquire
  split
  · exact fun _ => installed ‹_›
  · intro acquired
    simp at acquired

/-- An acquisition that returns with the lock has installed it. -/
theorem follows_acquireLock :
    Script.Follows
      (acquireProtocol path (pendingPath path (info.lockId.getD "")) (.info info)) .outside
      (Session.steps (acquireLock host path info))
      fun result phase => result = .ok .acquired → phase = .installed := by
  rw [acquireLock, steps_andThen]
  refine (follows_execute follows_acquireCommand).andThen (by simp) ?_
  rintro output phase ⟨_, same, contention, installed⟩
  obtain rfl := Except.ok.inj same
  split
  · rename_i held
    rw [contention held.2, steps_andThen]
    refine follows_readLock.andThen (by simp) fun holder phase outside => ?_
    subst outside
    cases holder with
    | some holder => simp [Session.steps, Script.expand, Script.Follows]
    | none =>
        rw [steps_andThen]
        refine follows_recoverIncompleteLock.andThen (by simp) fun _ phase outside => ?_
        subst outside
        rw [steps_andThen]
        refine (follows_execute follows_acquireCommand).andThen (by simp) ?_
        rintro output phase ⟨_, same, contention, installed⟩
        obtain rfl := Except.ok.inj same
        split
        · rename_i held
          rw [contention held.2, steps_andThen]
          refine follows_readLock.andThen (by simp) fun holder phase _ => ?_
          simp [Session.steps, Script.expand, Script.Follows]
        · rename_i free
          exact follows_concludeAcquire fun success =>
            installed success fun held => free ⟨success, held⟩
  · rename_i free
    exact follows_concludeAcquire fun success => installed success fun held => free ⟨success, held⟩

theorem follows_releaseOwnedLock :
    Script.Follows (releaseProtocol path lockId) .outside
      (Session.steps (releaseOwnedLock host path lockId)) fun _ _ => True := by
  rw [releaseOwnedLock, steps_andThen]
  refine (follows_execute follows_releaseCommand).andThen (fun _ _ _ => trivial)
    fun output phase _ => ?_
  split
  · trivial
  · split
    · trivial
    · split <;> trivial

end Sessions

section Exclusion

variable {host path lockId other : String} {infoOf : String → LockInfo} {files : LockFiles}
variable {op : FileOp}

theorem pendingPath_injective (path : String) : Function.Injective (pendingPath path) := by
  intro lockId other same
  simpa [pendingPath] using same

/-- The steps that a process takes on the path of the lock and its own pending one.  It
removes the information of a complete lock only if that is its own. -/
structure Disciplined (path lockId : String) (files : LockFiles) (op : FileOp) : Prop where
  own : ∀ target ∈ op.touches, target = pendingPath path lockId ∨ target = path
  notInstalled : ∀ contents, op ≠ .install path contents
  notMoved : ∀ target, op ≠ .rename path target
  removal : op = .removeInfo path → ∀ info,
    files path = some (.directory (some (.info info))) → info.lockId = some lockId

/-- A step of a process leaves the pending paths of the others alone. -/
theorem Disciplined.pending
    (disciplined : Disciplined path lockId files op)
    (different : other ≠ lockId) :
    (files.perform op).2 (pendingPath path other) = files (pendingPath path other) := by
  refine LockFiles.perform_frame fun touched => ?_
  rcases disciplined.own _ touched with same | same
  · exact different (pendingPath_injective path same)
  · exact pendingPath_ne path other same

/-- A step of a process leaves a complete lock of another process alone. -/
theorem Disciplined.complete
    (disciplined : Disciplined path lockId files op)
    (different : other ≠ lockId)
    (complete : files path = some (.directory (some (.info (ownInfo infoOf other))))) :
    (files.perform op).2 path = some (.directory (some (.info (ownInfo infoOf other)))) := by
  refine LockFiles.perform_complete complete (fun removed => ?_) disciplined.notInstalled
    disciplined.notMoved
  exact different (Option.some.inj (disciplined.removal removed _ complete))

theorem disciplined_of_acquire
    {contents : LockContents}
    (allowed : (acquireProtocol path (pendingPath path lockId) contents).allowed phase op)
    (careful : op = .removeInfo path →
      ∀ info, files path ≠ some (.directory (some (.info info)))) :
    Disciplined path lockId files op := by
  have different := pendingPath_ne path lockId
  constructor
  · intro target touched
    cases phase with
    | outside => cases op <;> simp_all [acquireProtocol, FileOp.touches]
    | staged =>
        rcases allowed with rfl | rfl <;> simp_all [FileOp.touches]
    | installed => exact allowed.elim
  · rintro installed rfl
    cases phase with
    | outside => exact different allowed.1.symm
    | staged => simp [acquireProtocol] at allowed
    | installed => exact allowed
  · rintro target rfl
    cases phase with
    | outside => exact allowed
    | staged =>
        rcases allowed with moved | removed
        · exact different (FileOp.rename.inj moved).1.symm
        · simp at removed
    | installed => exact allowed
  · intro removed info complete
    exact absurd complete (careful removed info)

theorem disciplined_of_release
    {phase : ReleasePhase}
    (holds : phase.Holds path lockId files)
    (allowed : (releaseProtocol path lockId).allowed phase op) :
    Disciplined path lockId files op := by
  cases phase with
  | outside =>
      rcases allowed with rfl | rfl | rfl <;>
        exact ⟨by simp [FileOp.touches], by simp, by simp, by simp⟩
  | verified =>
      obtain rfl : op = .removeInfo path := allowed
      refine ⟨by simp [FileOp.touches], by simp, by simp, fun _ info complete => ?_⟩
      obtain ⟨contents, found, own⟩ := holds
      obtain rfl : contents = .info info := by simpa [found] using complete
      exact own

/-- What the activity of a process says about the file system. -/
def Activity.Sound
    (path lockId : String)
    (info : LockInfo)
    (files : LockFiles) : Activity → Prop
  | .idle => True
  | .acquiring remaining => ∃ phase,
      Script.Follows (acquireProtocol path (pendingPath path lockId) (.info info)) phase remaining
        (fun result phase => result = .ok .acquired → phase = .installed) ∧
      phase.Holds path (pendingPath path lockId) (.info info) files
  | .releasing remaining => ∃ phase,
      Script.Follows (releaseProtocol path lockId) phase remaining (fun _ _ => True) ∧
      phase.Holds path lockId files

/-- A process that holds the lock has its information at the path, and what every process
does is sound. -/
structure LockHost.Sound (path : String) (infoOf : String → LockInfo) (system : LockHost) :
    Prop where
  holders : ∀ lockId, (system.processes lockId).holds = true →
    system.files path = some (.directory (some (.info (ownInfo infoOf lockId))))
  activities : ∀ lockId,
    (system.processes lockId).activity.Sound path lockId (ownInfo infoOf lockId) system.files

/-- A step of one process keeps the activity of another sound. -/
theorem Activity.Sound.perform
    {activity : Activity}
    (sound : activity.Sound path other (ownInfo infoOf other) files)
    (disciplined : Disciplined path lockId files op)
    (different : other ≠ lockId) :
    activity.Sound path other (ownInfo infoOf other) (files.perform op).2 := by
  cases activity with
  | idle => trivial
  | acquiring remaining =>
      obtain ⟨phase, follows, holds⟩ := sound
      refine ⟨phase, follows, ?_⟩
      cases phase with
      | outside => trivial
      | staged => exact (disciplined.pending different).trans holds
      | installed => exact disciplined.complete different holds
  | releasing remaining =>
      obtain ⟨phase, follows, holds⟩ := sound
      refine ⟨phase, follows, ?_⟩
      cases phase with
      | outside => trivial
      | verified =>
          obtain ⟨contents, found, own⟩ := holds
          refine ⟨contents, ?_, own⟩
          refine LockFiles.perform_complete found (fun removed => ?_) disciplined.notInstalled
            disciplined.notMoved
          cases contents with
          | malformed => simp [LockContents.lockId] at own
          | info info =>
              exact different (Option.some.inj
                (own.symm.trans (disciplined.removal removed info found)))

/-- A process changes its activity without a step on the file system. -/
theorem LockHost.Sound.setProcess
    {system : LockHost}
    (sound : system.Sound path infoOf)
    (holds : process.holds = true →
      system.files path = some (.directory (some (.info (ownInfo infoOf lockId)))))
    (activity : process.activity.Sound path lockId (ownInfo infoOf lockId) system.files) :
    (system.setProcess lockId process).Sound path infoOf := by
  constructor
  · intro other
    rcases eq_or_ne other lockId with rfl | different
    · simpa [LockHost.setProcess] using holds
    · simpa [LockHost.setProcess, different] using sound.holders other
  · intro other
    rcases eq_or_ne other lockId with rfl | different
    · simpa [LockHost.setProcess] using activity
    · simpa [LockHost.setProcess, different] using sound.activities other

/-- A process takes a step on the file system. -/
theorem LockHost.Sound.perform
    {system : LockHost}
    (sound : system.Sound path infoOf)
    (disciplined : Disciplined path lockId system.files op)
    (holds : process.holds = true →
      (system.files.perform op).2 path =
        some (.directory (some (.info (ownInfo infoOf lockId)))))
    (activity : process.activity.Sound path lockId (ownInfo infoOf lockId)
      (system.files.perform op).2) :
    LockHost.Sound path infoOf
      { system.setProcess lockId process with files := (system.files.perform op).2 } := by
  constructor
  · intro other
    rcases eq_or_ne other lockId with rfl | different
    · simpa [LockHost.setProcess] using holds
    · simpa [LockHost.setProcess, different] using fun held =>
        disciplined.complete different (sound.holders other held)
  · intro other
    rcases eq_or_ne other lockId with rfl | different
    · simpa [LockHost.setProcess] using activity
    · simpa [LockHost.setProcess, different] using
        (sound.activities other).perform disciplined different

/-- A step of a process keeps the host sound, if a recovery meets no complete lock. -/
theorem LockHost.Sound.step
    {system next : LockHost}
    (sound : system.Sound path infoOf)
    (careful : RecoversIncomplete path system (.step lockId))
    (stepped : system.step path lockId = some next) :
    next.Sound path infoOf := by
  have own := sound.activities lockId
  have held := sound.holders lockId
  unfold LockHost.step at stepped
  dsimp only at stepped
  split at stepped
  · simp at stepped
  · rename_i result acquiring
    obtain rfl := Option.some.inj stepped
    rw [acquiring] at own
    obtain ⟨phase, ended, holds⟩ := own
    refine sound.setProcess (fun holding => ?_) trivial
    rcases Bool.or_eq_true_iff.mp holding with before | acquired
    · exact held before
    · rw [ended (eq_acquired acquired)] at holds
      exact holds
  · rename_i op rest acquiring
    obtain rfl := Option.some.inj stepped
    rw [acquiring] at own
    obtain ⟨phase, follows, holds⟩ := own
    have incomplete : op = .removeInfo path →
        ∀ info, system.files path ≠ some (.directory (some (.info info))) := by
      rintro rfl
      exact careful rest acquiring
    have disciplined := disciplined_of_acquire follows.1 incomplete
    refine sound.perform disciplined (fun holding => ?_) ⟨_, follows.2 _, holds.perform follows.1⟩
    exact LockFiles.perform_complete (held holding)
      (fun removed => incomplete removed _ (held holding)) disciplined.notInstalled
      disciplined.notMoved
  · rename_i result releasing
    obtain rfl := Option.some.inj stepped
    exact sound.setProcess held trivial
  · rename_i op rest releasing
    obtain rfl := Option.some.inj stepped
    rw [releasing] at own
    obtain ⟨phase, follows, holds⟩ := own
    have disciplined := disciplined_of_release holds follows.1
    refine sound.perform disciplined (fun holding => ?_)
      ⟨_, follows.2 _, ReleasePhase.Holds.perform follows.1⟩
    obtain ⟨before, kept⟩ := Bool.and_eq_true_iff.mp holding
    exact LockFiles.perform_complete (held before) (of_decide_eq_true kept)
      disciplined.notInstalled disciplined.notMoved

/-- A process that begins to acquire the lock is sound. -/
theorem sound_acquireLock :
    Activity.Sound path lockId (ownInfo infoOf lockId) files
      (.acquiring (acquireLock host path (ownInfo infoOf lockId)).steps) := by
  have follows := @follows_acquireLock host path (ownInfo infoOf lockId)
  have named : (ownInfo infoOf lockId).lockId.getD "" = lockId := rfl
  rw [named] at follows
  exact ⟨.outside, follows, trivial⟩

/-- A process that begins to release the lock is sound. -/
theorem sound_releaseOwnedLock :
    Activity.Sound path lockId (ownInfo infoOf lockId) files
      (.releasing (releaseOwnedLock host path lockId).steps) :=
  ⟨.outside, follows_releaseOwnedLock, trivial⟩

/-- Every event keeps the host sound, if a recovery meets no complete lock. -/
theorem LockHost.Sound.advance
    {system next : LockHost}
    (sound : system.Sound path infoOf)
    (careful : RecoversIncomplete path system event)
    (advanced : system.advance host path infoOf event = some next) :
    next.Sound path infoOf := by
  cases event with
  | acquire lockId =>
      simp only [LockHost.advance] at advanced
      split at advanced
      · obtain rfl := Option.some.inj advanced
        exact sound.setProcess (sound.holders lockId) sound_acquireLock
      · simp at advanced
  | release lockId =>
      simp only [LockHost.advance] at advanced
      split at advanced
      · obtain rfl := Option.some.inj advanced
        exact sound.setProcess (sound.holders lockId) sound_releaseOwnedLock
      · simp at advanced
  | step lockId => exact sound.step careful advanced
  | interrupt lockId =>
      obtain rfl := Option.some.inj advanced
      exact sound.setProcess (sound.holders lockId) trivial

/-- As long as recoveries meet no complete lock, the directory holds the identifier of
every process that holds the lock, and at most one process does. -/
theorem lock_exclusive
    (host path : String)
    (infoOf : String → LockInfo)
    (files : LockFiles)
    (system : LockHost)
    (reaches : (lockMachine host path infoOf).Reaches (RecoversIncomplete path)
      (.initial files) system) :
    (∀ lockId other, (system.processes lockId).holds = true →
        (system.processes other).holds = true → lockId = other) ∧
      ∀ lockId, (system.processes lockId).holds = true →
        system.files path = some (.directory (some (.info (ownInfo infoOf lockId)))) := by
  have sound : system.Sound path infoOf := by
    refine reaches.invariant ⟨by simp [LockHost.initial], fun _ => trivial⟩ ?_
    exact fun _ _ _ sound careful advanced => sound.advance careful advanced
  refine ⟨fun lockId other holds alsoHolds => ?_, sound.holders⟩
  have same := (sound.holders lockId holds).symm.trans (sound.holders other alsoHolds)
  simp only [ownInfo, Option.some.injEq, LockEntry.directory.injEq, LockContents.info.injEq,
    LockInfo.mk.injEq] at same
  exact same.2.2.2.2

/-- The metadata of sample processes, without their identifiers. -/
def sampleInfo (_ : String) : LockInfo := ⟨"jiji deploy", 1000, "op", 7, none⟩

/-- A process goes through some steps. -/
def sampleSteps (lockId : String) (steps : ℕ) : List LockEvent :=
  List.replicate steps (.step lockId)

/-- A process is not about to remove the information of the lock for a recovery. -/
def sampleCheck (system : LockHost) : LockEvent → Bool
  | .step lockId =>
      match (system.processes lockId).activity with
      | .acquiring (.call (.removeInfo target) _) => target ≠ "l"
      | _ => true
  | _ => true

/-- One process takes the lock, and a second one finds it held. -/
theorem lock_exclusive_sample :
    ∃ system, (lockMachine "a" "l" sampleInfo).Reaches (RecoversIncomplete "l")
        (.initial fun _ => none) system ∧
      (system.processes "x").holds = true ∧
      (∀ other, (system.processes other).holds = true → "x" = other) ∧
      system.files "l" = some (.directory (some (.info (ownInfo sampleInfo "x")))) := by
  have runs : (((lockMachine "a" "l" sampleInfo).checked sampleCheck).run
      (.initial fun _ => none)
        (.acquire "x" :: sampleSteps "x" 5 ++ .acquire "y" :: sampleSteps "y" 8)).any
      (fun system => (system.processes "x").holds) = true := by
    decide
  obtain ⟨system, ran, holds⟩ := (Option.any_eq_true _ _).mp runs
  have reaches := Machine.reaches_of_checked ran fun state event passed =>
    (show RecoversIncomplete "l" state event by
      cases event with
      | step lockId =>
          intro next recovering
          simp [sampleCheck, recovering] at passed
      | _ => trivial)
  obtain ⟨unique, complete⟩ := lock_exclusive "a" "l" sampleInfo _ system reaches
  exact ⟨system, reaches, holds, fun other => unique "x" other holds, complete "x" holds⟩

/-- A process finds the lock held, and reads no metadata because the holder has released it
in between.  By the time it recovers the lock the path holds a new and complete one; it
removes that and takes the lock, and both processes hold it. -/
theorem recovery_removes_complete_lock :
    ∃ system, (lockMachine "a" "l" sampleInfo).run (.initial fun _ => none)
        (.acquire "x" :: sampleSteps "x" 5 ++ .acquire "y" :: sampleSteps "y" 6 ++
          .release "x" :: sampleSteps "x" 5 ++ sampleSteps "y" 1 ++
          .acquire "x" :: sampleSteps "x" 5 ++ sampleSteps "y" 8) = some system ∧
      (system.processes "x").holds = true ∧ (system.processes "y").holds = true := by
  have runs : ((lockMachine "a" "l" sampleInfo).run (.initial fun _ => none)
        (.acquire "x" :: sampleSteps "x" 5 ++ .acquire "y" :: sampleSteps "y" 6 ++
          .release "x" :: sampleSteps "x" 5 ++ sampleSteps "y" 1 ++
          .acquire "x" :: sampleSteps "x" 5 ++ sampleSteps "y" 8)).any (fun system =>
      (system.processes "x").holds && (system.processes "y").holds) = true := by
    decide
  obtain ⟨system, ran, both⟩ := (Option.any_eq_true _ _).mp runs
  exact ⟨system, ran, Bool.and_eq_true_iff.mp both⟩

end Exclusion

end Cli
end Jiji
