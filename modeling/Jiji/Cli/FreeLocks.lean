import Jiji.Cli.LockAcquisition

/-!
# Acquiring free locks

When no requested lock is held and every host answers, an acquisition meets no lock but its
own.  It succeeds exactly if it requests no lock twice and is connected to the hosts of all
its requests.
-/

namespace Jiji
namespace Cli

open Control

/-- Run a function of the operator on hosts that answer every command. -/
def Session.answer {α : Type} (session : Session α) (fleet : Fleet) : α × Fleet :=
  session.eval (fleetWorld.perform ()) fleet

/-- Nothing stands at the paths of the requested locks, nor where the invocation prepares
them. -/
def Free (project : String) (info : LockInfo) (requests : List LockRequest) (fleet : Fleet) :
    Prop :=
  ∀ request ∈ requests, fleet request.host (request.scope.lockPath project) = none ∧
    fleet request.host
      (pendingPath (request.scope.lockPath project) (info.lockId.getD "")) = none

section Paths

/-- The last character of a lock's path. -/
theorem getLast_lockPath (project : String) (scope : LockScope) :
    (scope.lockPath project).toList.getLast? = some 'k' := by
  cases scope with
  | hostGlobalProxy =>
      rw [LockScope.lockPath]
      decide
  | _ =>
      rw [LockScope.lockPath, String.toList_append, List.getLast?_append]
      rfl

theorem getLast_pendingPath (path lockId : String) :
    (pendingPath path lockId).toList.getLast? = some 'g' := by
  rw [pendingPath, String.toList_append, List.getLast?_append]
  rfl

/-- A lock is not prepared at the path of another lock. -/
theorem pendingPath_ne_lockPath (path lockId project : String) (scope : LockScope) :
    pendingPath path lockId ≠ scope.lockPath project := by
  intro same
  have last := getLast_pendingPath path lockId
  rw [same, getLast_lockPath] at last
  exact absurd last (by decide)

end Paths

section Claims

variable {project : String} {sessions : List String} {info : LockInfo} {now : ℕ}
variable {fleet : Fleet} {taken : List (String × String)} {request : LockRequest}
variable {requests : List LockRequest}

/-- The hosts after the invocation has taken some locks. -/
def fleetAfter (info : LockInfo) (fleet : Fleet) (taken : List (String × String)) : Fleet :=
  fun host path =>
    if (host, path) ∈ taken then some (.directory (some (.info info))) else fleet host path

theorem fleetAfter_nil : fleetAfter info fleet [] = fleet := by
  funext host path
  simp [fleetAfter]

theorem update_fleetAfter (place : String × String) :
    Function.update (fleetAfter info fleet taken) place.1
        (Function.update (fleetAfter info fleet taken place.1) place.2
          (some (.directory (some (.info info))))) =
      fleetAfter info fleet (place :: taken) := by
  funext host path
  by_cases sameHost : host = place.1
  · subst sameHost
    by_cases samePath : path = place.2
    · subst samePath
      simp [fleetAfter]
    · simp [fleetAfter, samePath, Prod.ext_iff]
  · simp [fleetAfter, sameHost, Prod.ext_iff]

/-- The places that have been taken are places of locks. -/
def PlacesOfLocks (project : String) (taken : List (String × String)) : Prop :=
  ∀ place ∈ taken, ∃ request : LockRequest, place = request.place project

theorem pending_free
    (places : PlacesOfLocks project taken)
    (free : fleet request.host (pendingPath (request.scope.lockPath project)
      (info.lockId.getD "")) = none) :
    fleetAfter info fleet taken request.host (pendingPath (request.scope.lockPath project)
      (info.lockId.getD "")) = none := by
  rw [fleetAfter, if_neg, free]
  intro member
  obtain ⟨other, same⟩ := places _ member
  exact pendingPath_ne_lockPath _ _ _ _ (congrArg Prod.snd same)

/-- A lock that nobody holds is acquired. -/
theorem answer_claim_fresh
    (places : PlacesOfLocks project taken)
    (free : fleet request.host (request.scope.lockPath project) = none ∧
      fleet request.host (pendingPath (request.scope.lockPath project)
        (info.lockId.getD "")) = none)
    (fresh : request.place project ∉ taken) :
    (claim project info request).answer (fleetAfter info fleet taken) =
      (.ok .acquired, fleetAfter info fleet (request.place project :: taken)) := by
  have vacant : Vacant (fleetAfter info fleet taken request.host)
      (request.scope.lockPath project) := by
    left
    exact (if_neg fresh).trans free.1
  have performed := perform_acquire_vacant (pending_free places free.2) vacant
  simp only [Session.answer, claim, acquireLock, execute, Script.request, Script.andThen,
    Script.bind, Script.eval, fleetWorld, performed, concludeAcquire, CommandOutput.success]
  simp only [decide_true, reduceCtorEq, and_false, if_false, if_true, Script.eval,
    Prod.mk.injEq, true_and]
  exact update_fleetAfter (request.place project)

/-- A lock that the invocation has taken already is held by itself. -/
theorem answer_claim_taken
    (places : PlacesOfLocks project taken)
    (free : fleet request.host (pendingPath (request.scope.lockPath project)
        (info.lockId.getD "")) = none)
    (held : request.place project ∈ taken) :
    (claim project info request).answer (fleetAfter info fleet taken) =
      (.ok (.held (some info)), fleetAfter info fleet taken) := by
  have found : fleetAfter info fleet taken request.host (request.scope.lockPath project) =
      some (.directory (some (.info info))) :=
    if_pos held
  have occupied : ¬Vacant (fleetAfter info fleet taken request.host)
      (request.scope.lockPath project) := by
    simp [Vacant, found]
  have performed := perform_acquire_held (pending_free places free) occupied
  have read : (LockCommand.read (request.scope.lockPath project)).perform
      (fleetAfter info fleet taken request.host) =
        (⟨0, .contents (.info info), ""⟩, fleetAfter info fleet taken request.host) := by
    simp [LockCommand.perform, LockCommand.shell, readCommand, Script.eval, LockFiles.perform,
      found]
  simp [Session.answer, claim, acquireLock, execute, Script.request, Script.andThen,
    Script.bind, Script.eval, fleetWorld, performed, readLock, read, parseHolder,
    CommandOutput.success, Function.update_eq_self]

/-- What the claims of a list of requests return. -/
def claimResults (project : String) (info : LockInfo) :
    List (String × String) → List LockRequest → List (Except String AcquireResult)
  | _, [] => []
  | taken, request :: requests =>
      if request.place project ∈ taken then
        .ok (.held (some info)) :: claimResults project info taken requests
      else .ok .acquired :: claimResults project info (request.place project :: taken) requests

/-- The places that are taken after the claims of a list of requests. -/
def takenAfter (project : String) :
    List (String × String) → List LockRequest → List (String × String)
  | taken, [] => taken
  | taken, request :: requests =>
      if request.place project ∈ taken then takenAfter project taken requests
      else takenAfter project (request.place project :: taken) requests

theorem placesOfLocks_cons (places : PlacesOfLocks project taken) (request : LockRequest) :
    PlacesOfLocks project (request.place project :: taken) := by
  intro place member
  rcases List.mem_cons.mp member with rfl | member
  · exact ⟨request, rfl⟩
  · exact places place member

theorem answer_collect_claim
    (places : PlacesOfLocks project taken)
    (free : Free project info requests fleet) :
    Session.answer (Script.collect (claim project info) requests)
        (fleetAfter info fleet taken) =
      (claimResults project info taken requests,
        fleetAfter info fleet (takenAfter project taken requests)) := by
  induction requests generalizing taken with
  | nil => rfl
  | cons request requests inductionHypothesis =>
      obtain ⟨vacant, rest⟩ := List.forall_mem_cons.mp free
      rw [Session.answer, Script.collect, Script.eval_bind, Script.eval_bind]
      by_cases held : request.place project ∈ taken
      · have claimed := answer_claim_taken places vacant.2 held
        have later := inductionHypothesis places rest
        rw [Session.answer] at claimed later
        rw [claimed, later, claimResults, takenAfter, if_pos held, if_pos held]
        rfl
      · have claimed := answer_claim_fresh places vacant held
        have later := inductionHypothesis (placesOfLocks_cons places request) rest
        rw [Session.answer] at claimed later
        rw [claimed, later, claimResults, takenAfter, if_neg held, if_neg held]
        rfl

theorem placesOfLocks_takenAfter
    (places : PlacesOfLocks project taken)
    (requests : List LockRequest) :
    PlacesOfLocks project (takenAfter project taken requests) := by
  induction requests generalizing taken with
  | nil => exact places
  | cons request requests inductionHypothesis =>
      rw [takenAfter]
      split
      · exact inductionHypothesis places
      · exact inductionHypothesis (placesOfLocks_cons places request)

/-- Requests for places that differ from each other and from those taken before. -/
def FreshRequests (project : String) (taken : List (String × String)) (requests : List LockRequest) :
    Prop :=
  (requests.map (LockRequest.place project)).Nodup ∧
    ∀ request ∈ requests, request.place project ∉ taken

theorem freshRequests_cons_iff :
    FreshRequests project taken (request :: requests) ↔
      request.place project ∉ taken ∧
        FreshRequests project (request.place project :: taken) requests := by
  rw [FreshRequests, FreshRequests, List.map_cons, List.nodup_cons, List.forall_mem_cons]
  constructor
  · rintro ⟨⟨apart, distinct⟩, fresh, rest⟩
    refine ⟨fresh, distinct, fun other member held => ?_⟩
    rcases List.mem_cons.mp held with same | held
    · exact apart (List.mem_map.mpr ⟨other, member, same⟩)
    · exact rest other member held
  · rintro ⟨fresh, distinct, rest⟩
    refine ⟨⟨fun held => ?_, distinct⟩, fresh, fun other member held => ?_⟩
    · obtain ⟨other, member, same⟩ := List.mem_map.mp held
      exact rest other member (List.mem_cons.mpr (Or.inl same))
    · exact rest other member (List.mem_cons_of_mem _ held)

/-- Every claim succeeds exactly if the requests are fresh. -/
theorem claimResults_acquired_iff :
    (∀ result ∈ claimResults project info taken requests, result = .ok .acquired) ↔
      FreshRequests project taken requests := by
  induction requests generalizing taken with
  | nil => simp [claimResults, FreshRequests]
  | cons request requests inductionHypothesis =>
      rw [freshRequests_cons_iff, claimResults]
      by_cases held : request.place project ∈ taken
      · simp [held]
      · simp [held, inductionHypothesis]

theorem freshRequests_append_iff {later : List LockRequest} :
    FreshRequests project taken (requests ++ later) ↔
      FreshRequests project taken requests ∧
        FreshRequests project (takenAfter project taken requests) later := by
  induction requests generalizing taken with
  | nil => simp [takenAfter, FreshRequests]
  | cons request requests inductionHypothesis =>
      rw [List.cons_append, freshRequests_cons_iff, freshRequests_cons_iff, takenAfter,
        inductionHypothesis, and_assoc]
      refine and_congr_right fun untaken => ?_
      rw [if_neg untaken]

theorem length_claimResults :
    (claimResults project info taken requests).length = requests.length := by
  induction requests generalizing taken with
  | nil => rfl
  | cons request requests inductionHypothesis =>
      rw [claimResults]
      split <;> simp [inductionHypothesis]

theorem failures_record_iff {progress : Progress} {result : Except String AcquireResult} :
    (progress.record now request result).failures = [] ↔
      progress.failures = [] ∧ result = .ok .acquired := by
  match result with
  | .ok .acquired => simp [Progress.record]
  | .ok (.held (some holder)) => simp [Progress.record]
  | .ok (.held none) => simp [Progress.record]
  | .error error => simp [Progress.record]

/-- Recording results adds no failure exactly if all of them are successes. -/
theorem failures_foldl_record_iff
    {progress : Progress}
    (lengths : results.length = requests.length) :
    ((requests.zip results).foldl (fun progress (request, result) =>
        progress.record now request result) progress).failures = [] ↔
      progress.failures = [] ∧ ∀ result ∈ results, result = .ok .acquired := by
  induction requests generalizing results progress with
  | nil =>
      obtain rfl := List.length_eq_zero_iff.mp lengths
      simp
  | cons request requests inductionHypothesis =>
      match results, lengths with
      | result :: results, lengths =>
          rw [List.zip_cons_cons, List.foldl_cons,
            inductionHypothesis (by simpa using lengths), failures_record_iff,
            List.forall_mem_cons, and_assoc]

/-- The outcome of a pass over groups of requests is clean if nothing failed. -/
def CleanPass (outcome : Except AcquireError Progress) : Prop :=
  ∃ progress, outcome = .ok progress ∧ progress.failures = []

theorem claimGroups_of_failures
    (failed : progress.failures ≠ []) :
    claimGroups project sessions info now groups progress = .done (.ok progress) := by
  cases groups with
  | nil => rfl
  | cons group groups => rw [claimGroups, if_neg failed]

theorem connected_append_iff {later : List LockRequest} :
    Connected sessions (requests ++ later) ↔
      Connected sessions requests ∧ Connected sessions later :=
  List.forall_mem_append

/-- A pass over groups of requests is clean exactly if it is connected to the hosts and the
requests are fresh. -/
theorem cleanPass_claimGroups_iff
    {groups : List (List LockRequest)}
    {progress : Progress}
    (places : PlacesOfLocks project taken)
    (free : Free project info groups.flatten fleet)
    (clean : progress.failures = []) :
    CleanPass ((claimGroups project sessions info now groups progress).answer
        (fleetAfter info fleet taken)).1 ↔
      Connected sessions groups.flatten ∧ FreshRequests project taken groups.flatten := by
  induction groups generalizing progress taken with
  | nil => simp [claimGroups, Session.answer, Script.eval, CleanPass, clean, Connected, FreshRequests]
  | cons group groups inductionHypothesis =>
      obtain ⟨freeFirst, freeRest⟩ := List.forall_mem_append.mp free
      have claimed := answer_collect_claim places freeFirst
      have recorded : ((group.zip (claimResults project info taken group)).foldl
          (fun progress (request, result) => progress.record now request result)
            progress).failures = [] ↔ FreshRequests project taken group := by
        rw [failures_foldl_record_iff length_claimResults, claimResults_acquired_iff,
          and_iff_right clean]
      rw [Session.answer] at claimed
      rw [claimGroups, if_pos clean, List.flatten_cons, connected_append_iff, freshRequests_append_iff]
      by_cases connected : Connected sessions group
      · rw [if_pos connected, Session.answer, Script.eval_bind, claimed,
          and_iff_right connected]
        by_cases fresh : FreshRequests project taken group
        · have later := inductionHypothesis (placesOfLocks_takenAfter places group) freeRest
            (recorded.mpr fresh)
          rw [Session.answer] at later
          rw [later, and_iff_right fresh]
        · rw [claimGroups_of_failures (mt recorded.mp fresh)]
          refine iff_of_false ?_ fun both => fresh both.2.1
          rintro ⟨reached, same, nothing⟩
          obtain rfl := Except.ok.inj same
          exact fresh (recorded.mp nothing)
      · rw [if_neg connected]
        refine iff_of_false ?_ fun both => connected both.1.1
        rintro ⟨reached, same, _⟩
        cases same

end Claims

section Acquisition

variable {project : String} {sessions : List String} {info : LockInfo} {now : ℕ}
variable {fleet : Fleet} {requests : List LockRequest}

/-- Removing free locks changes nothing. -/
theorem answer_forceRemoveAll
    (free : Free project info requests fleet)
    (connected : Connected sessions requests) :
    (forceRemoveAll project sessions requests).answer fleet = (.ok (), fleet) := by
  have removed : Session.answer (Script.collect (fun request =>
      forceRemoveLock request.host (request.scope.lockPath project)) requests) fleet =
        (requests.map fun _ => .ok (), fleet) := by
    clear connected
    induction requests with
    | nil => rfl
    | cons request requests inductionHypothesis =>
        obtain ⟨vacant, rest⟩ := List.forall_mem_cons.mp free
        have later := inductionHypothesis rest
        have unchanged : Function.update (fleet request.host)
            (request.scope.lockPath project) none = fleet request.host :=
          Function.update_eq_self_iff.mpr vacant.1.symm
        have first : (forceRemoveLock request.host (request.scope.lockPath project)).eval
            (fleetWorld.perform ()) fleet = (.ok (), fleet) := by
          simp [forceRemoveLock, execute, Script.request, Script.andThen, Script.bind,
            Script.eval, fleetWorld, perform_forceRemove, CommandOutput.success, unchanged]
        rw [Session.answer] at later
        rw [Session.answer, Script.collect, Script.eval_bind, Script.eval_bind, first, later]
        rfl
  rw [Session.answer] at removed
  rw [forceRemoveAll, if_pos connected, Session.answer, Script.eval_bind, removed]
  have allOk : (requests.map fun _ => (.ok () : Except String Unit)).find?
      (fun result => !result.isOk) = none := by
    simp [Except.isOk, Except.toBool]
  rw [allOk]
  rfl

/-- What follows the claims succeeds exactly if they were clean. -/
theorem isOk_conclusion_iff
    {claims : Session (Except AcquireError Progress)}
    {lockId : String} :
    (Session.answer (claims.andThen fun progress =>
      if progress.failures = [] then .done (.ok ⟨project, lockId, progress.acquired⟩)
      else (releaseRequests project lockId progress.acquired).bind fun (_, errors) =>
        .done (.error (.failed (acquisitionError progress.failures errors)) :
          Except AcquireError OwnedDeploymentLocks)) fleet).1.isOk = true ↔
      CleanPass (claims.answer fleet).1 := by
  rw [Session.answer, Session.answer, Script.andThen, Script.eval_bind]
  cases outcome : (claims.eval (fleetWorld.perform ()) fleet).1 with
  | error error => simp [Script.eval, CleanPass, Except.isOk, Except.toBool]
  | ok progress =>
      by_cases clean : progress.failures = []
      · simp [Script.eval, CleanPass, Except.isOk, Except.toBool, clean]
      · dsimp only
        rw [if_neg clean, Script.eval_bind]
        simp [Script.eval, CleanPass, Except.isOk, Except.toBool, clean]

/-- If no requested lock is held, one pass succeeds exactly if it is connected to every host
and requests no lock twice. -/
theorem isOk_acquire_iff
    {force : Bool}
    (free : Free project info requests fleet) :
    ((OwnedDeploymentLocks.acquire project sessions info now force requests 0).answer
        fleet).1.isOk = true ↔
      Connected sessions requests ∧ (requests.map (LockRequest.place project)).Nodup := by
  have permuted : (sortRequests project requests).Perm requests := List.perm_insertionSort _ _
  have flat : (rankGroups (sortRequests project requests)).flatten =
      sortRequests project requests := List.flatten_splitBy _ _
  have sortedFree : Free project info (sortRequests project requests) fleet :=
    fun request member => free request (permuted.subset member)
  have sortedConnected : Connected sessions (sortRequests project requests) ↔
      Connected sessions requests :=
    ⟨fun connected request member => connected request (permuted.symm.subset member),
      fun connected request member => connected request (permuted.subset member)⟩
  have groups : CleanPass ((claimGroups project sessions info now
      (rankGroups (sortRequests project requests)) ⟨[], [], false⟩).answer fleet).1 ↔
      Connected sessions requests ∧ (requests.map (LockRequest.place project)).Nodup := by
    have nothing : PlacesOfLocks project [] := by simp [PlacesOfLocks]
    have clean := @cleanPass_claimGroups_iff project sessions info now fleet []
      (rankGroups (sortRequests project requests)) ⟨[], [], false⟩ nothing
      (flat.symm ▸ sortedFree) rfl
    rw [fleetAfter_nil, flat, sortedConnected] at clean
    rw [clean, FreshRequests, (permuted.map _).nodup_iff]
    simp
  rw [OwnedDeploymentLocks.acquire, acquirePass]
  by_cases connected : Connected sessions requests
  · have cleared : (if force then forceRemoveAll project sessions (sortRequests project requests)
        else .done (.ok ())).eval (fleetWorld.perform ()) fleet = (.ok (), fleet) := by
      split
      · exact answer_forceRemoveAll sortedFree (sortedConnected.mpr connected)
      · rfl
    rw [Session.answer, Script.eval_andThen_ok cleared, ← groups]
    exact isOk_conclusion_iff
  · cases force with
    | true =>
        rw [if_pos rfl, forceRemoveAll, if_neg (mt sortedConnected.mp connected)]
        exact iff_of_false (by simp [Session.answer, Script.andThen, Script.bind, Script.eval,
          Except.isOk, Except.toBool]) fun both => connected both.1
    | false =>
        rw [← groups]
        exact isOk_conclusion_iff

end Acquisition

end Cli
end Jiji
