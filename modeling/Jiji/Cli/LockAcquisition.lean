import Jiji.Cli.LockFiles

/-!
# Acquiring the locks of a command

A command needs several locks on several hosts.  It takes them in a fixed order, rank by
rank, releases those it got when one of them fails, and tries again until its deadline.
The locks of one rank are taken concurrently; they are different directories, so that the
order in which they are taken does not matter, and the script takes them one by one.
-/

namespace Jiji
namespace Cli

open Control

section Requests

def projectStagingDir (project : String) : String := ".jiji/" ++ project

def hostGlobalProxyLockPath : String := "/etc/jiji/proxy-ingress/lock"

inductive LockScope
  | projectMaintenance
  | hostRuntime
  | serviceScale (service : String)
  | logicalReplica (replicaId : String)
  | hostGlobalProxy
  deriving DecidableEq

namespace LockScope

def rank : LockScope → ℕ
  | .projectMaintenance => 0
  | .hostRuntime => 1
  | .serviceScale _ => 2
  | .logicalReplica _ => 3
  | .hostGlobalProxy => 4

def lockPath (project : String) : LockScope → String
  | .projectMaintenance => projectStagingDir project ++ "/locks/maintenance.lock"
  | .hostRuntime => projectStagingDir project ++ "/locks/host-runtime.lock"
  | .serviceScale service => projectStagingDir project ++ "/locks/service/" ++ service ++ ".lock"
  | .logicalReplica replicaId =>
      projectStagingDir project ++ "/locks/replica/" ++ replicaId ++ ".lock"
  | .hostGlobalProxy => hostGlobalProxyLockPath

def display : LockScope → String
  | .projectMaintenance => "project-maintenance"
  | .hostRuntime => "host-runtime"
  | .serviceScale service => "service-scale:" ++ service
  | .logicalReplica replicaId => "replica:" ++ replicaId
  | .hostGlobalProxy => "proxy"

end LockScope

/-- One lock that a command needs on one host. -/
structure LockRequest where
  scope : LockScope
  host : String
  deriving DecidableEq

/-- The place of a lock: its host and its path. -/
def LockRequest.place (project : String) (request : LockRequest) : String × String :=
  (request.host, request.scope.lockPath project)

/-- The order in which requests are taken: by rank, then by host, then by path. -/
def requestOrder (project : String) (left right : LockRequest) : Ordering :=
  ((compare left.scope.rank right.scope.rank).then (compare left.host right.host)).then
    (compare (left.scope.lockPath project) (right.scope.lockPath project))

def sortRequests (project : String) (locks : List LockRequest) : List LockRequest :=
  locks.insertionSort fun left right => (requestOrder project left right).isLE

/-- The runs of requests of one rank. -/
def rankGroups (requests : List LockRequest) : List (List LockRequest) :=
  requests.splitBy fun left right => left.scope.rank = right.scope.rank

def formatAge (seconds : ℕ) : String :=
  if seconds < 60 then s!"{seconds}s"
  else if seconds < 3600 then s!"{seconds / 60}m{seconds % 60}s"
  else s!"{seconds / 3600}h{seconds % 3600 / 60}m"

end Requests

section Acquisition

variable (project : String) (sessions : List String) (info : LockInfo) (now : ℕ)

/-- An acquisition fails with a message, or the process panics. -/
inductive AcquireError
  | failed (message : String)
  | panicked (message : String)
  deriving DecidableEq

/-- Every request is for a host that the command is connected to. -/
def Connected (requests : List LockRequest) : Prop :=
  ∀ request ∈ requests, request.host ∈ sessions

instance (requests : List LockRequest) : Decidable (Connected sessions requests) :=
  inferInstanceAs (Decidable (∀ request ∈ requests, _))

/-- What a pass has got so far. -/
structure Progress where
  acquired : List LockRequest
  failures : List String
  hardFailure : Bool

/-- Record the result of one acquisition. -/
def Progress.record
    (progress : Progress)
    (request : LockRequest)
    (result : Except String AcquireResult) : Progress :=
  let label := s!"{request.scope.display} on {request.host}: "
  match result with
  | .ok .acquired => { progress with acquired := progress.acquired ++ [request] }
  | .ok (.held (some holder)) =>
      let age := formatAge (now - holder.acquiredAt)
      { progress with
        failures := progress.failures ++
          [label ++ s!"\"{holder.message}\" by {holder.acquiredBy} ({age} ago)"] }
  | .ok (.held none) =>
      { progress with failures := progress.failures ++ [label ++ "lock metadata is incomplete"] }
  | .error error =>
      { progress with
        failures := progress.failures ++ [label ++ error]
        hardFailure := true }

/-- Acquire the lock of one request. -/
def claim (request : LockRequest) : Session (Except String AcquireResult) :=
  acquireLock request.host (request.scope.lockPath project) info

/-- Acquire the locks group by group, until a group has a failure. -/
def claimGroups : List (List LockRequest) → Progress → Session (Except AcquireError Progress)
  | [], progress => .done (.ok progress)
  | group :: groups, progress =>
      if progress.failures = [] then
        if Connected sessions group then
          (Script.collect (claim project info) group).bind fun results =>
            claimGroups groups ((group.zip results).foldl (fun progress (request, result) =>
              progress.record now request result) progress)
        else .done (.error (.panicked "host has a session"))
      else .done (.ok progress)

/-- Release the locks of requests, and describe what went wrong: warnings and errors. -/
def releaseRequests (lockId : String) (requests : List LockRequest) :
    Session (List String × List String) :=
  (Script.collect (fun request =>
    releaseOwnedLock request.host (request.scope.lockPath project) lockId) requests).bind
      fun results => .done
        ((requests.zip results).filterMap fun (request, result) =>
          match result with
          | .ok .noLongerOwned => some
              s!"{request.scope.display} lock on {request.host} is no longer owned by this invocation; it was not removed."
          | _ => none,
        (requests.zip results).filterMap fun (request, result) =>
          match result with
          | .error error => some s!"{request.scope.display} on {request.host}: {error}"
          | _ => none)

/-- Remove the locks of requests, whoever holds them. -/
def forceRemoveAll (requests : List LockRequest) : Session (Except AcquireError Unit) :=
  if Connected sessions requests then
    (Script.collect (fun request =>
      forceRemoveLock request.host (request.scope.lockPath project)) requests).bind
        fun results => match results.find? fun result => !result.isOk with
          | some (.error error) => .done (.error (.failed error))
          | _ => .done (.ok ())
  else .done (.error (.panicked "host has a session"))

structure OwnedDeploymentLocks where
  project : String
  lockId : String
  acquired : List LockRequest
  deriving DecidableEq

/-- The message of a failed acquisition. -/
def acquisitionError (failures rollbackErrors : List String) : String :=
  "Could not acquire every lock this operation needs:\n  " ++ "\n  ".intercalate failures ++
    (if rollbackErrors = [] then ""
      else "\nCould not roll back partial locks:\n  " ++ "\n  ".intercalate rollbackErrors) ++
    "\nCheck `jiji lock status`, and once it is safe, run `jiji lock release`."

/-- One pass over the sorted requests.  After a pass that failed only because locks are
held, the next one follows, if the deadline allows one. -/
def acquirePass
    (force : Bool)
    (sorted : List LockRequest)
    (next : Option (Session (Except AcquireError OwnedDeploymentLocks))) :
    Session (Except AcquireError OwnedDeploymentLocks) :=
  let lockId := info.lockId.getD ""
  (if force then forceRemoveAll project sessions sorted else .done (.ok ())).andThen fun _ =>
  (claimGroups project sessions info now (rankGroups sorted) ⟨[], [], false⟩).andThen
    fun progress =>
  if progress.failures = [] then .done (.ok ⟨project, lockId, progress.acquired⟩)
  else (releaseRequests project lockId progress.acquired).bind fun (_, errors) =>
    match next with
    | none => .done (.error (.failed (acquisitionError progress.failures errors)))
    | some next =>
        if progress.hardFailure ∨ errors ≠ [] then
          .done (.error (.failed (acquisitionError progress.failures errors)))
        else next

/-- Acquire all locks, with as many retries as the deadline allows. -/
def OwnedDeploymentLocks.acquire (force : Bool) (locks : List LockRequest) :
    ℕ → Session (Except AcquireError OwnedDeploymentLocks)
  | 0 => acquirePass project sessions info now force (sortRequests project locks) none
  | retries + 1 => acquirePass project sessions info now force (sortRequests project locks)
      (some (OwnedDeploymentLocks.acquire force locks retries))

end Acquisition

section Hosts

/-- The lock files of every host. -/
abbrev Fleet := String → LockFiles

/-- Hosts that run the operator's commands. -/
def fleetWorld : World HostCommand (Except String CommandOutput) Unit String Fleet where
  perform _ fleet request :=
    let (output, files) := request.command.perform (fleet request.host)
    (.ok output, Function.update fleet request.host files)
  failure := .error

end Hosts

end Cli
end Jiji
