import Jiji.Control.Script

/-!
# Lock directories

A lock is a directory on a host that holds a file `info.json` with the identity of its
owner.  The operator takes and releases it with shell commands, and each command is a
sequence of atomic steps on the file system.  The operator's functions combine these
commands.

A lock directory holds no other file, and the directories above it are not modelled.
-/

namespace Jiji
namespace Cli

open Control

structure LockInfo where
  message : String
  acquiredAt : ℕ
  acquiredBy : String
  pid : ℕ
  lockId : Option String
  deriving DecidableEq

section Files

/-- The contents of an information file, as far as the operator can parse them. -/
inductive LockContents
  | info (info : LockInfo)
  | malformed
  deriving DecidableEq

/-- The identifier that a release finds in an information file. -/
def LockContents.lockId : LockContents → Option String
  | .info metadata => metadata.lockId
  | .malformed => none

/-- What stands at the path of a lock. -/
inductive LockEntry
  | file
  | directory (info : Option LockContents)
  deriving DecidableEq

/-- The entries at the paths of locks. -/
abbrev LockFiles := String → Option LockEntry

/-- The atomic steps of shell commands. -/
inductive FileOp
  | makeParents (path : String)
  | makeDirectory (path : String)
  | install (path : String) (contents : LockContents)
  | rename (source target : String)
  | removeInfo (path : String)
  | removeDirectory (path : String)
  | removeFile (path : String)
  | isDirectory (path : String)
  | pathExists (path : String)
  | readInfo (path : String)
  deriving DecidableEq

inductive FileReply
  | succeeded
  | failed (stderr : String)
  | contents (contents : LockContents)
  deriving DecidableEq

namespace LockFiles

/-- Perform one step.  A directory is renamed onto a path that is absent or an empty
directory. -/
def perform (files : LockFiles) : FileOp → FileReply × LockFiles
  | .makeParents _ => (.succeeded, files)
  | .makeDirectory path =>
      match files path with
      | none => (.succeeded, Function.update files path (some (.directory none)))
      | some _ => (.failed s!"mkdir: cannot create directory '{path}': File exists", files)
  | .install path contents =>
      match files path with
      | some (.directory _) =>
          (.succeeded, Function.update files path (some (.directory (some contents))))
      | _ => (.failed s!"install: cannot create regular file '{path}/info.json'", files)
  | .rename source target =>
      match files source, files target with
      | some (.directory info), none | some (.directory info), some (.directory none) =>
          (.succeeded, Function.update (Function.update files source none) target
            (some (.directory info)))
      | _, _ => (.failed s!"mv: cannot move '{source}' to '{target}'", files)
  | .removeInfo path =>
      match files path with
      | some (.directory _) =>
          (.succeeded, Function.update files path (some (.directory none)))
      | _ => (.succeeded, files)
  | .removeDirectory path =>
      match files path with
      | some (.directory none) => (.succeeded, Function.update files path none)
      | _ => (.failed s!"rmdir: failed to remove '{path}'", files)
  | .removeFile path =>
      match files path with
      | some (.directory _) =>
          (.failed s!"rm: cannot remove '{path}': Is a directory", files)
      | _ => (.succeeded, Function.update files path none)
  | .isDirectory path =>
      match files path with
      | some (.directory _) => (.succeeded, files)
      | _ => (.failed "", files)
  | .pathExists path =>
      match files path with
      | some _ => (.succeeded, files)
      | none => (.failed "", files)
  | .readInfo path =>
      match files path with
      | some (.directory (some contents)) => (.contents contents, files)
      | _ => (.failed s!"can't read {path}/info.json: No such file or directory", files)

end LockFiles

end Files

section Shell

/-- What a command prints. -/
inductive Stdout
  | empty
  | held
  | contents (contents : LockContents)
  deriving DecidableEq

structure CommandOutput where
  code : ℕ
  stdout : Stdout
  stderr : String
  deriving DecidableEq

def CommandOutput.success (output : CommandOutput) : Bool := output.code = 0

/-- A shell command as a script of atomic steps. -/
abbrev Shell := Script FileOp FileReply CommandOutput

/-- A step of a command that exits when the step fails. -/
def orExit (op : FileOp) (code : ℕ) (next : Shell) : Shell :=
  .call op fun
    | .failed stderr => .done ⟨code, .empty, stderr⟩
    | _ => next

def exit (code : ℕ) : Shell := .done ⟨code, .empty, ""⟩

/-- Where a lock is prepared before it is renamed to its path. -/
def pendingPath (path lockId : String) : String := path ++ "." ++ lockId ++ ".pending"

/-- Prepare the lock beside its path and rename it.  New locks have an identifier. -/
def acquireCommand (path : String) (info : LockInfo) : Shell :=
  let pending := pendingPath path (info.lockId.getD "")
  orExit (.makeParents path) 1 <|
  orExit (.makeDirectory pending) 1 <|
  .call (.install pending (.info info)) fun
    | .failed _ => orExit (.removeDirectory pending) 1 (exit 74)
    | _ => .call (.rename pending path) fun
        | .failed _ =>
            orExit (.removeInfo pending) 1 <|
            orExit (.removeDirectory pending) 1 <|
            .done ⟨0, .held, ""⟩
        | _ => exit 0

def readCommand (path : String) : Shell :=
  .call (.readInfo path) fun
    | .contents contents => .done ⟨0, .contents contents, ""⟩
    | _ => exit 0

def recoverCommand (path : String) : Shell :=
  .call (.isDirectory path) fun
    | .failed _ => .call (.pathExists path) fun
        | .failed _ => exit 0
        | _ => orExit (.removeFile path) 1 (exit 0)
    | _ => .call (.removeInfo path) fun _ => .call (.removeDirectory path) fun _ => exit 0

def releaseCommand (path lockId : String) : Shell :=
  .call (.isDirectory path) fun
    | .failed _ => exit 76
    | _ => .call (.readInfo path) fun
        | .contents contents =>
            if contents.lockId = some lockId then
              orExit (.removeInfo path) 1 <|
              orExit (.removeDirectory path) 1 <|
              exit 0
            else exit 75
        | .failed stderr => .done ⟨2, .empty, stderr⟩
        | .succeeded => exit 75

def forceRemoveCommand (path : String) : Shell :=
  .call (.isDirectory path) fun
    | .failed _ => orExit (.removeFile path) 1 (exit 0)
    | _ => orExit (.removeInfo path) 1 <| orExit (.removeDirectory path) 1 (exit 0)

/-- The commands that the operator runs on a host to work on a lock. -/
inductive LockCommand
  | acquire (path : String) (info : LockInfo)
  | read (path : String)
  | recover (path : String)
  | release (path lockId : String)
  | forceRemove (path : String)
  deriving DecidableEq

def LockCommand.shell : LockCommand → Shell
  | .acquire path info => acquireCommand path info
  | .read path => readCommand path
  | .recover path => recoverCommand path
  | .release path lockId => releaseCommand path lockId
  | .forceRemove path => forceRemoveCommand path

/-- Run a whole command. -/
def LockCommand.perform (files : LockFiles) (command : LockCommand) :
    CommandOutput × LockFiles :=
  command.shell.eval LockFiles.perform files

theorem pendingPath_ne (path lockId : String) : pendingPath path lockId ≠ path := by
  intro same
  have lengths := congrArg String.length same
  have suffix : ".pending".length = 8 := rfl
  simp only [pendingPath, String.length_append, suffix] at lengths
  omega

/-- A lock can be installed at a path that is absent or an empty directory. -/
def Vacant (files : LockFiles) (path : String) : Prop :=
  files path = none ∨ files path = some (.directory none)

instance (files : LockFiles) (path : String) : Decidable (Vacant files path) :=
  inferInstanceAs (Decidable (_ ∨ _))

section Effects

variable {files : LockFiles} {path lockId : String} {info : LockInfo}

/-- Preparing a lock at a free pending path leaves the prepared lock there. -/
theorem eval_acquireCommand
    (ready : files (pendingPath path (info.lockId.getD "")) = none) :
    (acquireCommand path info).eval LockFiles.perform files =
      (Script.call (.rename (pendingPath path (info.lockId.getD "")) path) fun
        | .failed _ =>
            orExit (.removeInfo (pendingPath path (info.lockId.getD ""))) 1 <|
            orExit (.removeDirectory (pendingPath path (info.lockId.getD ""))) 1 <|
            .done ⟨0, .held, ""⟩
        | _ => exit 0 : Shell).eval LockFiles.perform
        (Function.update files (pendingPath path (info.lockId.getD ""))
          (some (.directory (some (.info info))))) := by
  simp [acquireCommand, orExit, Script.eval, LockFiles.perform, ready]

/-- A pending directory that is left over makes the claim fail. -/
theorem perform_acquire_blocked
    (blocked : files (pendingPath path (info.lockId.getD "")) ≠ none) :
    ∃ stderr, (LockCommand.acquire path info).perform files = (⟨1, .empty, stderr⟩, files) := by
  obtain ⟨entry, found⟩ := Option.ne_none_iff_exists'.mp blocked
  simp [LockCommand.perform, LockCommand.shell, acquireCommand, orExit, Script.eval,
    LockFiles.perform, found]

/-- A claim of a vacant path installs the lock. -/
theorem perform_acquire_vacant
    (ready : files (pendingPath path (info.lockId.getD "")) = none)
    (vacant : Vacant files path) :
    (LockCommand.acquire path info).perform files =
      (⟨0, .empty, ""⟩,
        Function.update files path (some (.directory (some (.info info))))) := by
  have different := (pendingPath_ne path (info.lockId.getD "")).symm
  have restored : Function.update files (pendingPath path (info.lockId.getD "")) none = files :=
    Function.update_eq_self_iff.mpr ready.symm
  rw [LockCommand.perform, LockCommand.shell, eval_acquireCommand ready]
  rcases vacant with absent | empty
  · simp [Script.eval, LockFiles.perform, exit, different, absent, restored]
  · simp [Script.eval, LockFiles.perform, exit, different, empty, restored]

/-- A claim of a path that is not vacant reports contention. -/
theorem perform_acquire_held
    (ready : files (pendingPath path (info.lockId.getD "")) = none)
    (held : ¬Vacant files path) :
    (LockCommand.acquire path info).perform files = (⟨0, .held, ""⟩, files) := by
  have different := (pendingPath_ne path (info.lockId.getD "")).symm
  have restored : Function.update files (pendingPath path (info.lockId.getD "")) none = files :=
    Function.update_eq_self_iff.mpr ready.symm
  rw [LockCommand.perform, LockCommand.shell, eval_acquireCommand ready]
  cases found : files path with
  | none => exact absurd (Or.inl found) held
  | some entry =>
      cases entry with
      | file =>
          simp [Script.eval, LockFiles.perform, orExit, different, found, restored]
      | directory contents =>
          cases contents with
          | none => exact absurd (Or.inr found) held
          | some contents =>
              simp [Script.eval, LockFiles.perform, orExit, different, found, restored]

theorem perform_read :
    ∃ stdout, (LockCommand.read path).perform files = (⟨0, stdout, ""⟩, files) := by
  simp only [LockCommand.perform, LockCommand.shell, readCommand, Script.eval,
    LockFiles.perform]
  cases files path with
  | none => exact ⟨_, rfl⟩
  | some entry =>
      cases entry with
      | file => exact ⟨_, rfl⟩
      | directory contents => cases contents <;> exact ⟨_, rfl⟩

/-- A recovery removes what stands at the path. -/
theorem perform_recover :
    (LockCommand.recover path).perform files =
      (⟨0, .empty, ""⟩, Function.update files path none) := by
  cases found : files path with
  | none =>
      have same : Function.update files path none = files :=
        Function.update_eq_self_iff.mpr found.symm
      simp [LockCommand.perform, LockCommand.shell, recoverCommand, Script.eval,
        LockFiles.perform, exit, found, same]
  | some entry =>
      cases entry <;>
        simp [LockCommand.perform, LockCommand.shell, recoverCommand, Script.eval,
          LockFiles.perform, orExit, exit, found]

/-- A forced removal removes what stands at the path. -/
theorem perform_forceRemove :
    (LockCommand.forceRemove path).perform files =
      (⟨0, .empty, ""⟩, Function.update files path none) := by
  cases found : files path with
  | none =>
      simp [LockCommand.perform, LockCommand.shell, forceRemoveCommand, Script.eval,
        LockFiles.perform, orExit, exit, found]
  | some entry =>
      cases entry <;>
        simp [LockCommand.perform, LockCommand.shell, forceRemoveCommand, Script.eval,
          LockFiles.perform, orExit, exit, found]

/-- A release removes a lock of its owner. -/
theorem perform_release_own
    (found : files path = some (.directory (some contents)))
    (own : contents.lockId = some lockId) :
    (LockCommand.release path lockId).perform files =
      (⟨0, .empty, ""⟩, Function.update files path none) := by
  simp [LockCommand.perform, LockCommand.shell, releaseCommand, Script.eval, LockFiles.perform,
    orExit, exit, found, own]

end Effects

end Shell

section Operator

/-- A command on one of the hosts. -/
structure HostCommand where
  host : String
  command : LockCommand
  deriving DecidableEq

/-- A function of the operator: a script of commands on hosts. -/
abbrev Session (α : Type) := Script HostCommand (Except String CommandOutput) α

def execute (host : String) (command : LockCommand) :
    Session (Except String CommandOutput) :=
  Script.request ⟨host, command⟩

inductive AcquireResult
  | acquired
  | held (holder : Option LockInfo)
  deriving DecidableEq

inductive ReleaseOwnedResult
  | released
  | noLongerOwned
  | alreadyGone
  deriving DecidableEq

/-- Missing or malformed metadata is treated as unlocked. -/
def parseHolder : Stdout → Option LockInfo
  | .contents (.info info) => some info
  | _ => none

def readLock (host path : String) : Session (Except String (Option LockInfo)) :=
  (execute host (.read path)).andThen fun output => .done (.ok (parseHolder output.stdout))

def recoverIncompleteLock (host path : String) : Session (Except String Unit) :=
  (execute host (.recover path)).andThen fun output =>
    if output.success then .done (.ok ())
    else .done (.error
      s!"Could not recover incomplete lock at {path} on {host}: {output.stderr}")

/-- The result of an acquisition that found no contention. -/
def concludeAcquire (host path : String) (output : CommandOutput) :
    Session (Except String AcquireResult) :=
  if output.success then .done (.ok .acquired)
  else .done (.error s!"Could not acquire lock at {path} on {host}: {output.stderr}")

/-- Claim the lock at a path.  On contention without metadata the lock is recovered and
claimed once more. -/
def acquireLock (host path : String) (info : LockInfo) :
    Session (Except String AcquireResult) :=
  (execute host (.acquire path info)).andThen fun output =>
  if output.success ∧ output.stdout = .held then
    (readLock host path).andThen fun
      | some holder => .done (.ok (.held (some holder)))
      | none =>
          (recoverIncompleteLock host path).andThen fun _ =>
          (execute host (.acquire path info)).andThen fun output =>
          if output.success ∧ output.stdout = .held then
            (readLock host path).andThen fun holder => .done (.ok (.held holder))
          else concludeAcquire host path output
  else concludeAcquire host path output

/-- Remove a lock only when its identifier still belongs to the caller. -/
def releaseOwnedLock (host path lockId : String) :
    Session (Except String ReleaseOwnedResult) :=
  (execute host (.release path lockId)).andThen fun output =>
    if output.code = 76 then .done (.ok .alreadyGone)
    else if output.code = 75 then .done (.ok .noLongerOwned)
    else if output.success then .done (.ok .released)
    else .done (.error s!"Could not release lock at {path} on {host}: {output.stderr}")

def forceRemoveLock (host path : String) : Session (Except String Unit) :=
  (execute host (.forceRemove path)).andThen fun output =>
    if output.success then .done (.ok ())
    else .done (.error s!"Could not remove lock at {path} on {host}: {output.stderr}")

/-- A function of the operator that works on one host, as a script of atomic steps, when
every command is answered. -/
def Session.steps {α : Type} (session : Session α) : Script FileOp FileReply α :=
  session.expand fun request => request.command.shell.bind fun output => .done (.ok output)

end Operator

end Cli
end Jiji
