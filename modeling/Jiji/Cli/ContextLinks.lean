import Jiji.Cli.BuildContext
import Jiji.Control.Machine

/-!
# Symbolic links in an extracted build context

The archive of a build context is extracted at a root, and a path below it is resolved as the
system resolves it: a link is followed where it stands, and `..` leaves the directory that has
been reached.  The walk checks the target of each link as a text.
-/

namespace Jiji
namespace Cli

open Control

section Resolving

def ArchiveEntry.path : ArchiveEntry → RelPath
  | .file path => path
  | .link path _ => path

def ArchiveEntry.linkAt (path : RelPath) : ArchiveEntry → Option LinkTarget
  | .file _ => none
  | .link own target => if own = path then some target else none

/-- The target of the link at a path of the extracted tree. -/
def linkAt (archive : List ArchiveEntry) (path : RelPath) : Option LinkTarget :=
  archive.findSome? (ArchiveEntry.linkAt path)

/-- A path of the extracted tree: extraction makes the directories above an entry. -/
def present (archive : List ArchiveEntry) (path : RelPath) : Bool :=
  archive.any fun entry => path.isPrefixOf entry.path

def isDirectory (archive : List ArchiveEntry) (path : RelPath) : Bool :=
  path.isEmpty || archive.any fun entry => path.isPrefixOf entry.path && path != entry.path

/-- How far a path has been resolved. -/
inductive Resolution
  | inside (location : RelPath) (rest : List Component)
  | outside
  deriving DecidableEq, Repr

/-- Resolve one more component; nothing follows if the path does not exist. -/
def advance (archive : List ArchiveEntry) : Resolution → Option Resolution
  | .outside => none
  | .inside _ [] => none
  | .inside location (component :: rest) =>
      if isDirectory archive location then
        match component with
        | .curDir => some (.inside location rest)
        | .parentDir =>
            some (if location.isEmpty then .outside else .inside location.dropLast rest)
        | .normal name =>
            match linkAt archive (location ++ [name]) with
            | some target =>
                some (if target.isAbsolute then .outside
                  else .inside location (target.components ++ rest))
            | none =>
                if present archive (location ++ [name]) then
                  some (.inside (location ++ [name]) rest)
                else none
      else none

end Resolving

section Covered

variable {isLink : String → Bool}

/-- Read as a text, a path goes up past no name of a link and not above what it starts from, that
many directories below the root. -/
def Covered (isLink : String → Bool) : ℕ → List Component → Prop
  | _, [] => True
  | depth, .curDir :: rest => Covered isLink depth rest
  | 0, .parentDir :: _ => False
  | depth + 1, .parentDir :: rest => Covered isLink depth rest
  | depth, .normal name :: rest =>
      if isLink name then Covered isLink 0 rest else Covered isLink (depth + 1) rest

theorem Covered.mono
    (covered : Covered isLink depth components)
    (le : depth ≤ deeper) :
    Covered isLink deeper components := by
  induction components generalizing depth deeper with
  | nil => trivial
  | cons component rest inductionHypothesis =>
      cases component with
      | curDir => exact inductionHypothesis covered le
      | parentDir =>
          cases depth with
          | zero => cases covered
          | succ depth =>
              obtain ⟨more, rfl⟩ := Nat.exists_eq_add_of_le' le
              exact inductionHypothesis covered (Nat.le_add_left depth more)
      | normal name =>
          simp only [Covered] at covered ⊢
          split
          · rwa [if_pos ‹_›] at covered
          · rw [if_neg ‹_›] at covered
            exact inductionHypothesis covered (Nat.succ_le_succ le)

theorem Covered.append
    (first : Covered isLink depth components)
    (second : Covered isLink 0 rest) :
    Covered isLink depth (components ++ rest) := by
  induction components generalizing depth with
  | nil => exact second.mono (Nat.zero_le depth)
  | cons component components inductionHypothesis =>
      cases component with
      | curDir => exact inductionHypothesis first
      | parentDir =>
          cases depth with
          | zero => cases first
          | succ depth => exact inductionHypothesis first
      | normal name =>
          simp only [Covered, List.cons_append] at first ⊢
          split
          · rw [if_pos ‹_›] at first
            exact inductionHypothesis first
          · rw [if_neg ‹_›] at first
            exact inductionHypothesis first

end Covered

section Normalising

variable {parts components : List Component}

end Normalising

section Links

mutual

/-- The links below a node at a path. -/
def Node.links (rel : RelPath) : Node → List (RelPath × LinkTarget)
  | .file => []
  | .link target => [(rel, target)]
  | .dir entries => entries.links rel

def Entries.links (rel : RelPath) : Entries → List (RelPath × LinkTarget)
  | .nil => []
  | .cons name node rest => node.links (rel ++ [name]) ++ rest.links rel

end

variable {matcher : RelPath → Bool} {dockerfile path : RelPath} {target : LinkTarget}

mutual

/-- A link in the archive is a link of the tree whose target was accepted. -/
theorem link_of_walkNode (node : Node) (rel : RelPath) (archive : List ArchiveEntry)
    (walked : walkNode matcher dockerfile rel node = .ok archive)
    (member : .link path target ∈ archive) :
    (path, target) ∈ node.links rel ∧
      addSymlinkEntry path target = .ok [.link path target] := by
  cases node with
  | file =>
      simp only [walkNode] at walked
      split at walked
      · cases walked
        cases member
      · cases walked
        simp at member
  | link own =>
      simp only [walkNode] at walked
      split at walked
      · cases walked
        cases member
      · have accepted : addSymlinkEntry rel own = .ok [.link rel own] := by
          unfold addSymlinkEntry at walked ⊢
          split at walked
          · cases walked
          · split at walked
            · cases walked
            · rw [if_neg ‹_›, if_neg ‹_›]
        obtain rfl := Except.ok.inj (accepted.symm.trans walked)
        obtain ⟨rfl, rfl⟩ := ArchiveEntry.link.inj (List.mem_singleton.mp member)
        exact ⟨List.mem_singleton.mpr rfl, accepted⟩
  | dir entries =>
      simp only [walkNode] at walked
      split at walked
      · cases walked
        cases member
      · exact link_of_walkDir entries rel archive walked member

theorem link_of_walkDir (entries : Entries) (rel : RelPath) (archive : List ArchiveEntry)
    (walked : walkDir matcher dockerfile rel entries = .ok archive)
    (member : .link path target ∈ archive) :
    (path, target) ∈ entries.links rel ∧
      addSymlinkEntry path target = .ok [.link path target] := by
  cases entries with
  | nil =>
      cases walked
      cases member
  | cons name node rest =>
      simp only [walkDir] at walked
      split at walked
      · cases walked
      · rename_i first walkedNode
        cases walkedRest : walkDir matcher dockerfile rel rest with
        | error error =>
            rw [walkedRest] at walked
            cases walked
        | ok others =>
            rw [walkedRest] at walked
            obtain rfl := Except.ok.inj walked
            obtain inNode | inRest := List.mem_append.mp member
            · obtain ⟨known, accepted⟩ :=
                link_of_walkNode node (rel ++ [name]) first walkedNode inNode
              exact ⟨List.mem_append_left _ known, accepted⟩
            · obtain ⟨known, accepted⟩ := link_of_walkDir rest rel others walkedRest inRest
              exact ⟨List.mem_append_right _ known, accepted⟩

end

end Links

section Containment

variable {matcher : RelPath → Bool} {dockerfile : RelPath} {entries : Entries}
  {archive : List ArchiveEntry}

end Containment

end Cli
end Jiji
