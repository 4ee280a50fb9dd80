import Jiji.Control.Machine

/-!
# The host lease

The agents on a host take turns with the shared proxy by an exclusive lock on a file.  A lock
belongs to the file that was opened, not to its path, and a process that was started while the
lease was held may keep the file locked after its agent has gone.  An agent that finds the file
open in such processes only unlinks it and begins again with a new file.
-/

namespace Jiji
namespace Agent

open Control

section Model

/-- What an agent is doing with the lease: nothing, trying to lock the file it has opened,
looking for who holds it, replacing it, trying to lock the new file, or holding the lease. -/
inductive LeasePhase
  | idle
  | opened (inode : ℕ)
  | blocked (inode : ℕ)
  | recovering
  | unlinked
  | reopened (inode : ℕ)
  | guard (inode : ℕ)
  deriving DecidableEq, Repr

/-- The file that an agent has open. -/
def LeasePhase.inode : LeasePhase → Option ℕ
  | .opened inode => some inode
  | .blocked inode => some inode
  | .reopened inode => some inode
  | .guard inode => some inode
  | _ => none

/-- Who holds the lock of a file: an agent, or only processes that have inherited its
descriptor. -/
inductive LockOwner (Agent : Type)
  | agent (agent : Agent)
  | inherited
  deriving DecidableEq, Repr

/-- The lease of a host: the file that the path names, the number of the next file, the locks,
the agents, and by name the processes that have inherited a descriptor: with the lock of a
file, or of a file that was unlocked since. -/
structure LeaseHost (Agent : Type) where
  path : Option ℕ
  fresh : ℕ
  lock : ℕ → Option (LockOwner Agent)
  phase : Agent → LeasePhase
  sharers : ℕ → List String
  leftovers : ℕ → List String

/-- The steps of an attempt, the end of a lease, the end of an agent, and the beginning and the
end of a process that inherits a descriptor. -/
inductive LeaseEvent (Agent : Type)
  | openFile (agent : Agent)
  | flock (agent : Agent)
  | inspect (agent : Agent)
  | unlink (agent : Agent)
  | drop (agent : Agent)
  | crash (agent : Agent)
  | inherit (agent : Agent) (name : String)
  | exitSharer (inode : ℕ)
  | exitLeftover (inode : ℕ)
  deriving DecidableEq, Repr

/-- The helpers of a container engine that are known to inherit descriptors. -/
def isContainerHelper (name : String) : Bool :=
  name ∈ ["aardvark-dns", "catatonit", "conmon", "crun", "fuse-overlayfs", "pasta",
    "rootlessport", "slirp4netns"]

namespace LeaseHost

variable {Agent : Type} [DecidableEq Agent]

def setPhase (host : LeaseHost Agent) (agent : Agent) (phase : LeasePhase) : LeaseHost Agent :=
  { host with phase := Function.update host.phase agent phase }

def setLock (host : LeaseHost Agent) (inode : ℕ) (owner : Option (LockOwner Agent)) :
    LeaseHost Agent :=
  { host with lock := Function.update host.lock inode owner }

/-- Open the file that the path names, or make a new one. -/
def openLock (host : LeaseHost Agent) (agent : Agent) (phase : ℕ → LeasePhase) :
    LeaseHost Agent :=
  match host.path with
  | some inode => host.setPhase agent (phase inode)
  | none =>
      { host with path := some host.fresh, fresh := host.fresh + 1 }.setPhase agent
        (phase host.fresh)

/-- Try to lock a file. -/
def tryLock (host : LeaseHost Agent) (agent : Agent) (inode : ℕ) (contended : LeasePhase) :
    LeaseHost Agent :=
  match host.lock inode with
  | none => (host.setLock inode (some (.agent agent))).setPhase agent (.guard inode)
  | some _ => host.setPhase agent contended

/-- The other processes that have a file open are helpers of an engine, and there is one. -/
def heldOnlyByInheritedHelpers [Fintype Agent] (host : LeaseHost Agent) (agent : Agent)
    (inode : ℕ) : Bool :=
  decide (∀ other, other ≠ agent → (host.phase other).inode ≠ some inode) &&
    (let holders := host.sharers inode ++ host.leftovers inode
    !holders.isEmpty && holders.all isContainerHelper)

/-- Unlock a file; processes with its descriptor keep it open. -/
def unlock (host : LeaseHost Agent) (inode : ℕ) : LeaseHost Agent :=
  { host.setLock inode none with
    sharers := Function.update host.sharers inode []
    leftovers := Function.update host.leftovers inode
      (host.leftovers inode ++ host.sharers inode) }

/-- Close a locked file without unlocking it. -/
def abandon (host : LeaseHost Agent) (inode : ℕ) : LeaseHost Agent :=
  if host.sharers inode = [] then host.setLock inode none
  else host.setLock inode (some .inherited)

/-- A process that shares the lock of a file ends. -/
def endSharer (host : LeaseHost Agent) (inode : ℕ) : LeaseHost Agent :=
  let ended : LeaseHost Agent :=
    { host with sharers := Function.update host.sharers inode (host.sharers inode).tail }
  if host.lock inode = some .inherited ∧ (host.sharers inode).tail = [] then
    ended.setLock inode none
  else ended

def advance [Fintype Agent] (host : LeaseHost Agent) :
    LeaseEvent Agent → Option (LeaseHost Agent)
  | .openFile agent =>
      match host.phase agent with
      | .idle => some (host.openLock agent .opened)
      | .unlinked => some (host.openLock agent .reopened)
      | _ => none
  | .flock agent =>
      match host.phase agent with
      | .opened inode => some (host.tryLock agent inode (.blocked inode))
      | .reopened inode => some (host.tryLock agent inode .idle)
      | _ => none
  | .inspect agent =>
      match host.phase agent with
      | .blocked inode =>
          if host.heldOnlyByInheritedHelpers agent inode then
            some (host.setPhase agent .recovering)
          else some (host.setPhase agent .idle)
      | _ => none
  | .unlink agent =>
      match host.phase agent, host.path with
      | .recovering, some _ => some ({ host with path := none }.setPhase agent .unlinked)
      | .recovering, none => some (host.setPhase agent .idle)
      | _, _ => none
  | .drop agent =>
      match host.phase agent with
      | .guard inode => some ((host.unlock inode).setPhase agent .idle)
      | _ => none
  | .crash agent =>
      match host.phase agent with
      | .guard inode => some ((host.abandon inode).setPhase agent .idle)
      | _ => some (host.setPhase agent .idle)
  | .inherit agent name =>
      match host.phase agent with
      | .guard inode =>
          some { host with
            sharers := Function.update host.sharers inode (name :: host.sharers inode) }
      | _ => none
  | .exitSharer inode => some (host.endSharer inode)
  | .exitLeftover inode =>
      some { host with
        leftovers := Function.update host.leftovers inode (host.leftovers inode).tail }

end LeaseHost

/-- The lease of a host as a machine. -/
def leaseMachine (Agent : Type) [Fintype Agent] [DecidableEq Agent] :
    Machine (LeaseHost Agent) (LeaseEvent Agent) where
  advance := LeaseHost.advance

end Model

section Exclusion

variable {Agent : Type} [Fintype Agent] [DecidableEq Agent]
variable {host next : LeaseHost Agent} {event : LeaseEvent Agent} {agent : Agent}

namespace LeaseHost

/-- A recovering agent unlinks the path only while no other agent has the file that the path
names open. -/
def UnlinksAlone (host : LeaseHost Agent) : LeaseEvent Agent → Prop
  | .unlink agent => ∀ inode, host.path = some inode →
      ∀ other, other ≠ agent → (host.phase other).inode ≠ some inode
  | _ => True

/-- The agents agree on the file, and an agent with the lease has its lock. -/
structure Exclusive (host : LeaseHost Agent) : Prop where
  current : ∀ agent inode, (host.phase agent).inode = some inode → host.path = some inode
  locked : ∀ agent inode, host.phase agent = .guard inode →
    host.lock inode = some (.agent agent)

/-- Two agents with the lease are the same one. -/
theorem Exclusive.unique
    (exclusive : host.Exclusive)
    (holds : host.phase agent = .guard inode)
    (otherHolds : host.phase other = .guard otherInode) :
    agent = other := by
  have here := exclusive.current agent inode (by rw [holds]; rfl)
  have there := exclusive.current other otherInode (by rw [otherHolds]; rfl)
  obtain rfl := Option.some.inj (here.symm.trans there)
  have mine := exclusive.locked agent inode holds
  have theirs := exclusive.locked other inode otherHolds
  rw [mine] at theirs
  cases theirs
  rfl

/-- One agent moves on to a phase, while the others stay as they are. -/
theorem Exclusive.move
    {phase : LeasePhase}
    (exclusive : host.Exclusive)
    (path : ∀ other inode, other ≠ agent → (host.phase other).inode = some inode →
      host.path = some inode → next.path = some inode)
    (lock : ∀ other inode, other ≠ agent → host.phase other = .guard inode →
      host.lock inode = some (.agent other) → next.lock inode = some (.agent other))
    (phases : next.phase = Function.update host.phase agent phase)
    (current : ∀ inode, phase.inode = some inode → next.path = some inode)
    (locked : ∀ inode, phase = .guard inode → next.lock inode = some (.agent agent)) :
    next.Exclusive where
  current other inode opened := by
    rw [phases] at opened
    by_cases same : other = agent
    · subst same
      rw [Function.update_self] at opened
      exact current inode opened
    · rw [Function.update_of_ne same] at opened
      exact path other inode same opened (exclusive.current other inode opened)
  locked other inode holds := by
    rw [phases] at holds
    by_cases same : other = agent
    · subst same
      rw [Function.update_self] at holds
      exact locked inode holds
    · rw [Function.update_of_ne same] at holds
      exact lock other inode same holds (exclusive.locked other inode holds)

/-- An agent that closes its file leaves the others alone. -/
theorem Exclusive.close
    (exclusive : host.Exclusive)
    {phase : LeasePhase}
    (closed : phase.inode = none) :
    (host.setPhase agent phase).Exclusive := by
  refine exclusive.move (fun _ _ _ _ path => path) (fun _ _ _ _ lock => lock) rfl ?_ ?_
  · intro inode opened
    rw [closed] at opened
    cases opened
  · rintro inode rfl
    cases closed

theorem Exclusive.openLock
    (exclusive : host.Exclusive)
    {phase : ℕ → LeasePhase}
    (opens : ∀ inode, (phase inode).inode = some inode)
    (unlocked : ∀ inode other, phase inode ≠ .guard other) :
    (host.openLock agent phase).Exclusive := by
  unfold LeaseHost.openLock
  split
  · rename_i inode present
    refine exclusive.move (fun _ _ _ _ path => path) (fun _ _ _ _ lock => lock) rfl ?_ ?_
    · intro other opened
      rw [opens] at opened
      exact present.trans opened
    · intro other holds
      exact absurd holds (unlocked inode other)
  · rename_i absent
    refine exclusive.move ?_ (fun _ _ _ _ lock => lock) rfl ?_ ?_
    · intro other inode _ _ path
      rw [absent] at path
      cases path
    · intro inode opened
      rw [opens] at opened
      exact opened
    · intro inode holds
      exact absurd holds (unlocked _ inode)

/-- The lock of a file that an agent has open is free or not. -/
theorem Exclusive.tryLock
    (exclusive : host.Exclusive)
    {contended : LeasePhase}
    (opened : (host.phase agent).inode = some inode)
    (waits : ∀ other, contended.inode = some other → other = inode)
    (unlocked : ∀ other, contended ≠ .guard other) :
    (host.tryLock agent inode contended).Exclusive := by
  have path := exclusive.current agent inode opened
  unfold LeaseHost.tryLock
  split
  · rename_i free
    refine exclusive.move (fun _ _ _ _ path => path) ?_ rfl ?_ ?_
    · intro other place _ _ lock
      have elsewhere : place ≠ inode := by
        rintro rfl
        rw [free] at lock
        cases lock
      simpa [setLock, setPhase, elsewhere] using lock
    · intro other opened
      cases opened
      exact path
    · intro other holds
      cases holds
      simp [setLock, setPhase]
  · refine exclusive.move (fun _ _ _ _ path => path) (fun _ _ _ _ lock => lock) rfl ?_ ?_
    · intro other opened
      rw [waits other opened]
      exact path
    · intro other holds
      exact absurd holds (unlocked other)

/-- The end of a lease changes no lock of another agent. -/
theorem Exclusive.release
    {inode : ℕ}
    (exclusive : host.Exclusive)
    (holds : host.phase agent = .guard inode)
    (path : next.path = host.path)
    (phases : next.phase = Function.update host.phase agent .idle)
    (locks : ∀ place, place ≠ inode → next.lock place = host.lock place) :
    next.Exclusive := by
  refine exclusive.move ?_ ?_ phases ?_ ?_
  · intro other place _ _ known
    rw [path, known]
  · intro other place different _ lock
    have elsewhere : place ≠ inode := by
      rintro rfl
      have mine := exclusive.locked agent place holds
      rw [mine] at lock
      cases lock
      exact different rfl
    rw [locks place elsewhere, lock]
  · intro place opened
    cases opened
  · intro place holds
    cases holds

/-- What does not concern the agents keeps the lease exclusive. -/
theorem Exclusive.congr
    (exclusive : host.Exclusive)
    (path : next.path = host.path)
    (phases : next.phase = host.phase)
    (locks : ∀ inode agent, host.lock inode = some (.agent agent) →
      next.lock inode = some (.agent agent)) :
    next.Exclusive where
  current agent inode opened := by
    rw [phases] at opened
    rw [path, exclusive.current agent inode opened]
  locked agent inode holds := by
    rw [phases] at holds
    exact locks inode agent (exclusive.locked agent inode holds)

/-- A path that is unlinked while no other agent has its file open leaves no agent behind. -/
theorem Exclusive.unlink
    (exclusive : host.Exclusive)
    (alone : host.UnlinksAlone (.unlink agent)) :
    ({ host with path := none }.setPhase agent .unlinked).Exclusive := by
  refine exclusive.move ?_ (fun _ _ _ _ lock => lock) rfl ?_ ?_
  · intro other inode different opened known
    exact absurd opened (alone inode known other different)
  · intro inode opened
    cases opened
  · intro inode holds
    cases holds

theorem Exclusive.endSharer
    (exclusive : host.Exclusive)
    (inode : ℕ) :
    (host.endSharer inode).Exclusive := by
  unfold LeaseHost.endSharer
  dsimp only
  split
  · rename_i last
    refine exclusive.congr rfl rfl ?_
    intro place owner lock
    have elsewhere : place ≠ inode := by
      rintro rfl
      rw [last.1] at lock
      cases lock
    simpa [setLock, elsewhere] using lock
  · exact exclusive.congr rfl rfl fun _ _ lock => lock

theorem abandon_lock
    {inode place : ℕ}
    (elsewhere : place ≠ inode) :
    (host.abandon inode).lock place = host.lock place := by
  unfold LeaseHost.abandon
  split
  · simp [setLock, elsewhere]
  · simp [setLock, elsewhere]

theorem abandon_rest (inode : ℕ) :
    (host.abandon inode).path = host.path ∧ (host.abandon inode).phase = host.phase := by
  unfold LeaseHost.abandon
  split
  · exact ⟨rfl, rfl⟩
  · exact ⟨rfl, rfl⟩

/-- Every step keeps the lease exclusive if files are unlinked only while no other agent has
them open. -/
theorem Exclusive.advance
    (exclusive : host.Exclusive)
    (alone : host.UnlinksAlone event)
    (advanced : host.advance event = some next) :
    next.Exclusive := by
  cases event with
  | openFile agent =>
      simp only [LeaseHost.advance] at advanced
      split at advanced
      · cases advanced
        exact exclusive.openLock (fun _ => rfl) (by simp)
      · cases advanced
        exact exclusive.openLock (fun _ => rfl) (by simp)
      · cases advanced
  | flock agent =>
      simp only [LeaseHost.advance] at advanced
      split at advanced
      · rename_i inode opened
        cases advanced
        exact exclusive.tryLock (by rw [opened]; rfl) (by simp [LeasePhase.inode]) (by simp)
      · rename_i inode opened
        cases advanced
        exact exclusive.tryLock (by rw [opened]; rfl) (by simp [LeasePhase.inode]) (by simp)
      · cases advanced
  | inspect agent =>
      simp only [LeaseHost.advance] at advanced
      split at advanced
      · split at advanced
        · cases advanced
          exact exclusive.close rfl
        · cases advanced
          exact exclusive.close rfl
      · cases advanced
  | unlink agent =>
      simp only [LeaseHost.advance] at advanced
      split at advanced
      · cases advanced
        exact exclusive.unlink alone
      · cases advanced
        exact exclusive.close rfl
      · cases advanced
  | drop agent =>
      simp only [LeaseHost.advance] at advanced
      split at advanced
      · rename_i inode holds
        cases advanced
        refine exclusive.release holds rfl rfl ?_
        intro place elsewhere
        simp [unlock, setPhase, setLock, elsewhere]
      · cases advanced
  | crash agent =>
      simp only [LeaseHost.advance] at advanced
      split at advanced
      · rename_i inode holds
        cases advanced
        obtain ⟨path, phases⟩ : (host.abandon inode).path = host.path ∧
          (host.abandon inode).phase = host.phase := abandon_rest inode
        refine exclusive.release holds path ?_ fun place => abandon_lock
        rw [setPhase, phases]
      · cases advanced
        exact exclusive.close rfl
  | inherit agent name =>
      simp only [LeaseHost.advance] at advanced
      split at advanced
      · cases advanced
        exact exclusive.congr rfl rfl fun _ _ lock => lock
      · cases advanced
  | exitSharer inode =>
      cases advanced
      exact exclusive.endSharer inode
  | exitLeftover inode =>
      cases advanced
      exact exclusive.congr rfl rfl fun _ _ lock => lock

end LeaseHost

/-- If a recovering agent unlinks the path only while no other agent has the file that the path
names open, at most one agent holds the lease in every state that is reached. -/
theorem host_lease_has_one_holder
    {Agent : Type}
    [Fintype Agent]
    [DecidableEq Agent]
    {start host : LeaseHost Agent}
    (idle : ∀ agent, start.phase agent = .idle)
    (reaches : (leaseMachine Agent).Reaches LeaseHost.UnlinksAlone start host)
    {agent other : Agent}
    {inode otherInode : ℕ}
    (holds : host.phase agent = .guard inode)
    (otherHolds : host.phase other = .guard otherInode) :
    agent = other := by
  have initially : start.Exclusive := by
    refine ⟨?_, ?_⟩
    · intro agent inode opened
      rw [idle] at opened
      cases opened
    · intro agent inode holds
      rw [idle] at holds
      cases holds
  have exclusive : host.Exclusive := reaches.invariant initially
    fun _ _ _ before alone advanced => before.advance alone advanced
  exact exclusive.unique holds otherHolds

/-- A host with three idle agents, where a helper keeps the file of the path locked. -/
def staleLease : LeaseHost (Fin 3) where
  path := some 0
  fresh := 1
  lock := Function.update (fun _ => none) 0 (some .inherited)
  phase _ := .idle
  sharers := Function.update (fun _ => []) 0 ["aardvark-dns"]
  leftovers _ := []

/-- An agent finds the file locked by a helper and replaces it. -/
def recovery (agent : Fin 3) : List (LeaseEvent (Fin 3)) :=
  [.openFile agent, .flock agent, .inspect agent]

/-- The condition on an unlink, decided. -/
def LeaseHost.unlinksAlone
    {Agent : Type}
    [Fintype Agent]
    [DecidableEq Agent]
    (host : LeaseHost Agent) : LeaseEvent Agent → Bool
  | .unlink agent =>
      host.path.all fun inode =>
        decide (∀ other, other ≠ agent → (host.phase other).inode ≠ some inode)
  | _ => true

theorem LeaseHost.unlinksAlone_of_unlinksAlone
    {Agent : Type}
    [Fintype Agent]
    [DecidableEq Agent]
    (host : LeaseHost Agent)
    (event : LeaseEvent Agent)
    (passed : host.unlinksAlone event = true) :
    host.UnlinksAlone event := by
  cases event with
  | unlink agent =>
      intro inode path
      rw [unlinksAlone, path] at passed
      simpa using passed
  | openFile agent => trivial
  | flock agent => trivial
  | inspect agent => trivial
  | drop agent => trivial
  | crash agent => trivial
  | inherit agent name => trivial
  | exitSharer inode => trivial
  | exitLeftover inode => trivial

theorem host_lease_has_one_holder_recovered :
    ∃ host, (leaseMachine (Fin 3)).Reaches LeaseHost.UnlinksAlone staleLease host ∧
      host.phase 0 = .guard 1 ∧ host.phase 1 = .idle ∧
      ∀ agent inode, host.phase agent = .guard inode → agent = 0 := by
  have ran : (((leaseMachine (Fin 3)).checked LeaseHost.unlinksAlone).run staleLease
      (recovery 0 ++ [.unlink 0, .openFile 0, .flock 0] ++ recovery 1)).map (fun host =>
        (host.phase 0, host.phase 1)) = some (.guard 1, .idle) := by
    decide +kernel
  obtain ⟨host, reached, summary⟩ := Option.map_eq_some_iff.mp ran
  obtain ⟨first, second⟩ := Prod.mk.inj summary
  have reaches := Machine.reaches_of_checked reached LeaseHost.unlinksAlone_of_unlinksAlone
  exact ⟨host, reaches, first, second, fun agent inode holds =>
    host_lease_has_one_holder (fun _ => rfl) reaches holds first⟩

/-- Two agents that have both found only a helper replace the file one after the other: the
second one unlinks the file that the first one has locked, and both hold the lease. -/
theorem two_recoveries_hold_lease :
    ((leaseMachine (Fin 3)).run staleLease
      (recovery 0 ++ recovery 1 ++ [.unlink 0, .openFile 0, .flock 0, .unlink 1, .openFile 1,
        .flock 1])).map (fun host => (host.phase 0, host.phase 1)) =
      some (.guard 1, .guard 2) := by
  decide +kernel

end Exclusion

end Agent
end Jiji
