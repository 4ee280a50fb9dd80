import Mathlib

/-!
# The archive of a build context

The directory of a build context is walked into an archive.  Directories that the ignore rules
exclude are not entered, unless the Dockerfile lies below them.  A symbolic link is taken into
the archive if its target, normalised as a text, stays inside the context.
-/

namespace Jiji
namespace Cli

section Walking

/-- A path below the root of the context. -/
abbrev RelPath := List String

inductive Component
  | parentDir
  | curDir
  | normal (name : String)
  deriving DecidableEq, Repr

/-- The target of a symbolic link: its text, and what it is made of. -/
structure LinkTarget where
  text : String
  isAbsolute : Bool
  components : List Component
  deriving DecidableEq, Repr

mutual

inductive Node
  | file
  | link (target : LinkTarget)
  | dir (entries : Entries)

/-- The entries of a directory, sorted by name. -/
inductive Entries
  | nil
  | cons (name : String) (node : Node) (rest : Entries)

end

inductive ArchiveEntry
  | file (path : RelPath)
  | link (path : RelPath) (target : LinkTarget)
  deriving DecidableEq, Repr

/-- Take one more component into a normalised path. -/
def normalizeStep (parts : List Component) : Component → List Component
  | .parentDir =>
      match parts.getLast? with
      | some (.normal _) => parts.dropLast
      | _ => parts ++ [.parentDir]
  | .curDir => parts
  | .normal name => parts ++ [.normal name]

def lexicallyNormalize (components : List Component) : List Component :=
  components.foldl normalizeStep []

def addSymlinkEntry (rel : RelPath) (target : LinkTarget) : Except String (List ArchiveEntry) :=
  let shown := "/".intercalate rel
  if target.isAbsolute then
    .error (s!"Symlink '{shown}' points to an absolute path ('{target.text}'), which cannot be " ++
      "safely staged for a remote build. Use a relative symlink inside the context or exclude " ++
      "it via `.dockerignore`.")
  else if (lexicallyNormalize (rel.dropLast.map .normal ++ target.components)).head? =
      some .parentDir then
    .error (s!"Symlink '{shown}' points outside the build context ('{target.text}'). Remote " ++
      "builds cannot follow links leaving the context; remove it or exclude it via " ++
      "`.dockerignore`.")
  else .ok [.link rel target]

variable (matcher : RelPath → Bool) (dockerfile : RelPath)

/-- The Dockerfile lies below a path. -/
def above (rel : RelPath) : Bool := rel.isPrefixOf dockerfile && rel != dockerfile

mutual

def walkNode (rel : RelPath) : Node → Except String (List ArchiveEntry)
  | .file => if rel != dockerfile && matcher rel then .ok [] else .ok [.file rel]
  | .link target =>
      if rel != dockerfile && matcher rel then .ok [] else addSymlinkEntry rel target
  | .dir entries =>
      if matcher rel && !above dockerfile rel then .ok [] else walkDir rel entries

def walkDir (rel : RelPath) : Entries → Except String (List ArchiveEntry)
  | .nil => .ok []
  | .cons name node rest =>
      match walkNode (rel ++ [name]) node with
      | .error error => .error error
      | .ok first => (walkDir rel rest).map (first ++ ·)

end

end Walking

section Files

mutual

/-- A regular file at a path below a node. -/
def Node.HasFile : Node → RelPath → Prop
  | .file, path => path = []
  | .link _, _ => False
  | .dir entries, path => entries.HasFile path

def Entries.HasFile : Entries → RelPath → Prop
  | .nil, _ => False
  | .cons name node rest, path =>
      (∃ below, path = name :: below ∧ node.HasFile below) ∨ rest.HasFile path

end

mutual

/-- A node without symbolic links. -/
def Node.Linkless : Node → Prop
  | .file => True
  | .link _ => False
  | .dir entries => entries.Linkless

def Entries.Linkless : Entries → Prop
  | .nil => True
  | .cons _ node rest => node.Linkless ∧ rest.Linkless

end

variable {matcher : RelPath → Bool} {dockerfile : RelPath}

/-- Whether the walk gets from a path to a file below it and takes it. -/
def passes (matcher : RelPath → Bool) (dockerfile : RelPath) (rel : RelPath) : RelPath → Bool
  | [] => rel == dockerfile || !matcher rel
  | name :: below =>
      (!matcher rel || above dockerfile rel) && passes matcher dockerfile (rel ++ [name]) below

theorem Entries.cons_of_hasFile (entries : Entries) (found : entries.HasFile path) :
    ∃ name below, path = name :: below := by
  cases entries with
  | nil => cases found
  | cons name node rest =>
      obtain ⟨below, rfl, _⟩ | found := found
      · exact ⟨name, below, rfl⟩
      · exact rest.cons_of_hasFile found

mutual

/-- The files that the walk takes below a node. -/
theorem walkNode_spec (node : Node) (rel : RelPath) (linkless : node.Linkless) :
    ∃ archive, walkNode matcher dockerfile rel node = .ok archive ∧
      ∀ path, .file path ∈ archive ↔
        ∃ below, path = rel ++ below ∧ node.HasFile below ∧
          passes matcher dockerfile rel below := by
  cases node with
  | file =>
      by_cases skipped : (rel != dockerfile && matcher rel) = true
      · refine ⟨[], if_pos skipped, fun path => ?_⟩
        simp only [Bool.and_eq_true, bne_iff_ne] at skipped
        simp [Node.HasFile, passes, skipped.1, skipped.2]
      · refine ⟨[.file rel], if_neg skipped, fun path => ?_⟩
        have taken : (rel == dockerfile || !matcher rel) = true := by
          simp only [Bool.and_eq_true, bne_iff_ne, not_and, Bool.not_eq_true] at skipped
          by_cases same : rel = dockerfile
          · simp [same]
          · simp [skipped same]
        simp [Node.HasFile, passes, taken]
  | link target => cases linkless
  | dir entries =>
      have step : ∀ name below, passes matcher dockerfile rel (name :: below) =
          ((!matcher rel || above dockerfile rel) &&
            passes matcher dockerfile (rel ++ [name]) below) := fun _ _ => rfl
      by_cases pruned : (matcher rel && !above dockerfile rel) = true
      · refine ⟨[], if_pos pruned, fun path => ?_⟩
        have stopped : (!matcher rel || above dockerfile rel) = false := by
          simp only [Bool.and_eq_true, Bool.not_eq_true'] at pruned
          simp [pruned.1, pruned.2]
        simp only [List.not_mem_nil, false_iff, not_exists, not_and, Bool.not_eq_true]
        intro below _ found
        obtain ⟨name, deeper, rfl⟩ := entries.cons_of_hasFile found
        rw [step, stopped, Bool.false_and]
      · obtain ⟨archive, walked, members⟩ := walkDir_spec entries rel linkless
        have entered : (!matcher rel || above dockerfile rel) = true := by
          cases matched : matcher rel with
          | false => rfl
          | true =>
              rw [matched, Bool.true_and, Bool.not_eq_true', Bool.not_eq_false] at pruned
              rw [pruned]
              rfl
        refine ⟨archive, (if_neg pruned).trans walked, fun path => (members path).trans ?_⟩
        constructor
        · rintro ⟨name, below, rfl, found, passed⟩
          exact ⟨name :: below, rfl, found, by rw [step, entered, passed]; rfl⟩
        · rintro ⟨path, rfl, found, passed⟩
          obtain ⟨name, below, rfl⟩ := entries.cons_of_hasFile found
          rw [step, entered, Bool.true_and] at passed
          exact ⟨name, below, rfl, found, passed⟩

theorem walkDir_spec (entries : Entries) (rel : RelPath) (linkless : entries.Linkless) :
    ∃ archive, walkDir matcher dockerfile rel entries = .ok archive ∧
      ∀ path, .file path ∈ archive ↔
        ∃ name below, path = rel ++ name :: below ∧ entries.HasFile (name :: below) ∧
          passes matcher dockerfile (rel ++ [name]) below := by
  cases entries with
  | nil => exact ⟨[], rfl, by simp [Entries.HasFile]⟩
  | cons name node rest =>
      obtain ⟨linklessNode, linklessRest⟩ := linkless
      obtain ⟨first, walked, inFirst⟩ := walkNode_spec node (rel ++ [name]) linklessNode
      obtain ⟨others, walkedRest, inOthers⟩ := walkDir_spec rest rel linklessRest
      refine ⟨first ++ others, ?_, fun path => ?_⟩
      · simp only [walkDir, walked, walkedRest]
        rfl
      · rw [List.mem_append, inFirst, inOthers]
        constructor
        · rintro (⟨below, rfl, found, passed⟩ | ⟨other, below, rfl, found, passed⟩)
          · exact ⟨name, below, by simp, Or.inl ⟨below, rfl, found⟩, passed⟩
          · exact ⟨other, below, rfl, Or.inr found, passed⟩
        · rintro ⟨other, below, rfl, ⟨_, same, found⟩ | found, passed⟩
          · obtain ⟨rfl, rfl⟩ := List.cons.inj same
            exact Or.inl ⟨below, by simp, found, passed⟩
          · exact Or.inr ⟨other, below, rfl, found, passed⟩

end

/-- What the walk asks of the paths on the way to a file. -/
theorem passes_iff {rel below : RelPath} :
    passes matcher dockerfile rel below ↔
      (∀ way, rel <+: way → way <+: rel ++ below → way ≠ rel ++ below →
        matcher way = false ∨ above dockerfile way) ∧
      (rel ++ below = dockerfile ∨ matcher (rel ++ below) = false) := by
  induction below generalizing rel with
  | nil =>
      have none : ∀ way, rel <+: way → way <+: rel ++ [] → ¬way ≠ rel ++ [] := by
        intro way after before different
        rw [List.append_nil] at before different
        exact different (before.eq_of_length (le_antisymm before.length_le after.length_le))
      simp only [passes, List.append_nil, Bool.or_eq_true, beq_iff_eq, Bool.not_eq_true'] at none ⊢
      exact ⟨fun taken => ⟨fun way after before different => absurd different
        (none way after before), taken⟩, And.right⟩
  | cons name below inductionHypothesis =>
      have regroup : rel ++ name :: below = (rel ++ [name]) ++ below := by simp
      simp only [passes, Bool.and_eq_true, Bool.or_eq_true, Bool.not_eq_true', inductionHypothesis,
        regroup, ← and_assoc]
      refine and_congr_left fun _ => ⟨?_, ?_⟩
      · rintro ⟨here, later⟩ way after before different
        by_cases same : way = rel
        · exact same ▸ here
        · refine later way ?_ before different
          refine List.prefix_of_prefix_length_le (List.prefix_append _ _) before ?_
          rw [List.length_append, List.length_singleton]
          exact Nat.lt_of_le_of_ne after.length_le fun equal => same (after.eq_of_length equal).symm
      · intro every
        refine ⟨every rel List.prefix_rfl (by simp) (by simp), fun way after => ?_⟩
        exact every way ((List.prefix_append _ _).trans after)

end Files

section Rules

/-- A rule that names one path from the root of the context. -/
structure IgnoreRule where
  path : RelPath
  negated : Bool
  deriving DecidableEq, Repr

variable (rules : List IgnoreRule)

/-- The verdict of the last rule that names a path: whether it is negated. -/
def ownVerdict (path : RelPath) : Option Bool :=
  (rules.reverse.find? fun rule => rule.path == path).map IgnoreRule.negated

/-- The verdict for a path given from its end, or for its nearest ancestor that has one. -/
def nearestVerdict : List String → Option Bool
  | [] => none
  | name :: parents =>
      (ownVerdict rules (name :: parents).reverse).or (nearestVerdict parents)

/-- A path is ignored. -/
def isIgnored (path : RelPath) : Bool := nearestVerdict rules path.reverse == some false

/-- The last rule that names a path or one of its ancestors. -/
def lastRule (path : RelPath) : Option IgnoreRule :=
  rules.reverse.find? fun rule => rule.path.isPrefixOf path && !rule.path.isEmpty

/-- A path on the way to a file, or the file, stops the walk. -/
def Blocked (dockerfile path : RelPath) : Prop :=
  ∃ way, way ≠ [] ∧ way <+: path ∧ (way = path ∨ above dockerfile way = false) ∧
    isIgnored rules way

/-- The last rule decides: a negated one is not overruled on the way to the file, and one that
ignores a directory above the Dockerfile is repeated below it. -/
def LastRuleDecides (dockerfile path : RelPath) : Prop :=
  ∀ rule, lastRule rules path = some rule →
    (rule.negated = true → ¬Blocked rules dockerfile path) ∧
    (rule.negated = false → rule.path ≠ path → above dockerfile rule.path →
      Blocked rules dockerfile path)

variable {rules} {dockerfile path way : RelPath}

theorem isIgnored_of_ownVerdict
    (nonempty : path ≠ [])
    (own : ownVerdict rules path = some false) :
    isIgnored rules path := by
  unfold isIgnored
  cases reversed : path.reverse with
  | nil => exact absurd (List.reverse_eq_nil_iff.mp reversed) nonempty
  | cons name parents =>
      rw [nearestVerdict, ← reversed, List.reverse_reverse, own]
      rfl

/-- Without a rule for a path or an ancestor, nothing on the way is ignored. -/
theorem isIgnored_eq_false
    (unnamed : lastRule rules path = none)
    (before : way <+: path) :
    isIgnored rules way = false := by
  have silent : ∀ parents : List String, parents.reverse <+: path →
      nearestVerdict rules parents = none := by
    intro parents
    induction parents with
    | nil => exact fun _ => rfl
    | cons name parents inductionHypothesis =>
        intro before
        have own : ownVerdict rules (name :: parents).reverse = none := by
          rw [ownVerdict, Option.map_eq_none_iff, List.find?_eq_none]
          intro rule member named
          have missed := List.find?_eq_none.mp unnamed rule member
          rw [beq_iff_eq.mp named, List.isPrefixOf_iff_prefix.mpr before] at missed
          simp at missed
        rw [nearestVerdict, own, Option.none_or]
        refine inductionHypothesis (List.IsPrefix.trans ?_ before)
        rw [List.reverse_cons]
        exact List.prefix_append _ _
  rw [isIgnored, silent way.reverse (by rwa [List.reverse_reverse])]
  rfl

/-- The last rule for a path or an ancestor is the last one for the path that it names. -/
theorem ownVerdict_of_lastRule
    {rule : IgnoreRule}
    (last : lastRule rules path = some rule) :
    ownVerdict rules rule.path = some rule.negated ∧ rule.path <+: path ∧ rule.path ≠ [] := by
  obtain ⟨matched, later, earlier, split, unmatched⟩ := List.find?_eq_some_iff_append.mp last
  simp only [Bool.and_eq_true, List.isPrefixOf_iff_prefix, Bool.not_eq_true',
    List.isEmpty_eq_false_iff] at matched
  refine ⟨?_, matched⟩
  have first : rules.reverse.find? (fun other => other.path == rule.path) = some rule := by
    refine List.find?_eq_some_iff_append.mpr ⟨beq_self_eq_true _, later, earlier, split, ?_⟩
    intro other member
    have missed := unmatched other member
    by_contra named
    rw [Bool.not_eq_true', Bool.not_eq_false, beq_iff_eq] at named
    rw [named] at missed
    simp [List.isPrefixOf_iff_prefix.mpr matched.1, matched.2] at missed
  rw [ownVerdict, first]
  rfl

end Rules

section Archive

variable {rules : List IgnoreRule} {dockerfile path : RelPath} {entries : Entries}

/-- A file is taken into the archive. -/
def Archived (rules : List IgnoreRule) (dockerfile : RelPath) (entries : Entries) (path : RelPath) :
    Prop :=
  ∃ archive, walkDir (isIgnored rules) dockerfile [] entries = .ok archive ∧ .file path ∈ archive

/-- What the walk takes: the Dockerfile, and files that nothing on their way blocks. -/
theorem archived_iff
    (linkless : entries.Linkless)
    (file : entries.HasFile path) :
    Archived rules dockerfile entries path ↔
      path = dockerfile ∨ ¬Blocked rules dockerfile path := by
  obtain ⟨archive, walked, members⟩ :=
    @walkDir_spec (isIgnored rules) dockerfile entries [] linkless
  obtain ⟨name, below, rfl⟩ := entries.cons_of_hasFile file
  have taken : Archived rules dockerfile entries (name :: below) ↔
      passes (isIgnored rules) dockerfile [name] below := by
    have here := members (name :: below)
    simp only [List.nil_append, List.cons.injEq] at here
    rw [Archived, walked]
    simp only [Except.ok.injEq, exists_eq_left', here]
    constructor
    · rintro ⟨_, _, ⟨rfl, rfl⟩, _, passed⟩
      exact passed
    · exact fun passed => ⟨name, below, ⟨rfl, rfl⟩, file, passed⟩
  have started : ∀ way : RelPath, way ≠ [] → way <+: name :: below → [name] <+: way := by
    intro way nonempty before
    refine List.prefix_of_prefix_length_le (List.prefix_append [name] below) before ?_
    exact List.length_pos_of_ne_nil nonempty
  rw [taken, passes_iff, List.singleton_append, Blocked]
  by_cases same : name :: below = dockerfile
  · refine ⟨fun _ => Or.inl same, fun _ => ⟨fun way _ before different => Or.inr ?_, Or.inl same⟩⟩
    rw [← same, above, Bool.and_eq_true, bne_iff_ne]
    exact ⟨List.isPrefixOf_iff_prefix.mpr before, different⟩
  · simp only [same, false_or]
    constructor
    · rintro ⟨ways, own⟩ ⟨way, nonempty, before, rfl | open_, ignored⟩
      · exact absurd (own.symm.trans ignored) Bool.false_ne_true
      · by_cases whole : way = name :: below
        · rw [whole, own] at ignored
          cases ignored
        · obtain kept | inside := ways way (started way nonempty before) before whole
          · exact absurd (kept.symm.trans ignored) Bool.false_ne_true
          · exact absurd (open_.symm.trans inside) Bool.false_ne_true
    · intro unblocked
      refine ⟨fun way after before _ => ?_, ?_⟩
      · by_contra stopped
        rw [not_or, Bool.not_eq_false, Bool.not_eq_true] at stopped
        have nonempty : way ≠ [] := by
          rintro rfl
          cases List.prefix_nil.mp after
        exact unblocked ⟨way, nonempty, before, Or.inr stopped.2, stopped.1⟩
      · by_contra ignored
        exact unblocked ⟨_, List.cons_ne_nil _ _, List.prefix_rfl, Or.inl rfl,
          Bool.eq_true_of_not_eq_false ignored⟩

end Archive

/-- The last rule that names a file or an ancestor decides about the file exactly if a negated one
is not overruled on the way, and one that ignores a directory above the Dockerfile is repeated. -/
theorem archived_by_last_rule_iff
    (rules : List IgnoreRule)
    (dockerfile path : RelPath)
    (entries : Entries)
    (linkless : entries.Linkless)
    (file : entries.HasFile path) :
    (Archived rules dockerfile entries path ↔
        path = dockerfile ∨ ∀ rule, lastRule rules path = some rule → rule.negated = true) ↔
      path = dockerfile ∨ LastRuleDecides rules dockerfile path := by
  rw [archived_iff linkless file]
  by_cases same : path = dockerfile
  · simp [same]
  · simp only [same, false_or, LastRuleDecides]
    cases last : lastRule rules path with
    | none =>
        have free : ¬Blocked rules dockerfile path := by
          rintro ⟨way, _, before, _, ignored⟩
          rw [isIgnored_eq_false last before] at ignored
          cases ignored
        simp [free]
    | some rule =>
        obtain ⟨own, before, nonempty⟩ := ownVerdict_of_lastRule last
        simp only [Option.some.injEq, forall_eq']
        cases negated : rule.negated with
        | true => simp
        | false =>
            rw [negated] at own
            have ignored := isIgnored_of_ownVerdict nonempty own
            by_cases covered : rule.path ≠ path ∧ above dockerfile rule.path
            · simp [covered.1, covered.2]
            · have blocked : Blocked rules dockerfile path := by
                refine ⟨rule.path, nonempty, before, ?_, ignored⟩
                by_contra outside
                simp only [not_or, Bool.not_eq_false] at outside
                exact covered outside
              simp [blocked]

/-- A file that is let back in under an ignored directory. -/
def exceptionRules : List IgnoreRule := [⟨["a"], false⟩, ⟨["a", "b"], true⟩]

def exceptionTree : Entries :=
  .cons "Dockerfile" .file (.cons "a" (.dir (.cons "b" .file .nil)) .nil)

theorem archived_by_last_rule_iff_exception :
    (Archived exceptionRules ["Dockerfile"] exceptionTree ["a", "b"] ↔
        ["a", "b"] = ["Dockerfile"] ∨
          ∀ rule, lastRule exceptionRules ["a", "b"] = some rule → rule.negated = true) ↔
      ["a", "b"] = ["Dockerfile"] ∨ LastRuleDecides exceptionRules ["Dockerfile"] ["a", "b"] :=
  archived_by_last_rule_iff exceptionRules ["Dockerfile"] ["a", "b"] exceptionTree
    (by simp [exceptionTree, Entries.Linkless, Node.Linkless])
    (by simp [exceptionTree, Entries.HasFile, Node.HasFile])

/-- The last rule lets the file in, but the walk does not enter the directory. -/
theorem archived_prunes_exception :
    lastRule exceptionRules ["a", "b"] = some ⟨["a", "b"], true⟩ ∧
      isIgnored exceptionRules ["a", "b"] = false ∧
      ¬Archived exceptionRules ["Dockerfile"] exceptionTree ["a", "b"] := by
  have walked : walkDir (isIgnored exceptionRules) ["Dockerfile"] [] exceptionTree =
      .ok [.file ["Dockerfile"]] := by decide +kernel
  refine ⟨by decide, by decide, ?_⟩
  rintro ⟨archive, same, member⟩
  rw [walked] at same
  cases same
  revert member
  decide

end Cli
end Jiji
