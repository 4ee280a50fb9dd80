import Jiji.Text.Replacement

/-!
# Redaction of secrets

Every secret value is replaced in a text that may be shown, the longest one first.  An occurrence
is hidden as a whole only if it is still whole when its turn comes: occurrences that overlap
without one containing the other leave a part of one of them.
-/

namespace Jiji
namespace Cli

open Std (ExtTreeMap)
open Text

section Redacting

def redactedText : List Char := "<redacted>".toList

/-- The number of bytes of a text. -/
def byteLength (text : List Char) : ℕ := (text.map Char.utf8Size).sum

end Redacting

section Origins

/-- The marker, whose characters come from nowhere. -/
def redactedMarker : List Tagged := redactedText.map fun character => (character, none)

/-- Occurrences of two values that have a position in common contain one another. -/
def Nesting (text value other : List Char) : Prop :=
  ∀ first second, Occurs value text first → Occurs other text second →
    first < second + other.length → second < first + value.length →
      (first ≤ second ∧ second + other.length ≤ first + value.length) ∨
        (second ≤ first ∧ first + value.length ≤ second + other.length)

variable {text value other : List Char} {resolved : RedactionSources}

theorem length_le_byteLength (text : List Char) : text.length ≤ byteLength text := by
  induction text with
  | nil => exact le_rfl
  | cons character rest inductionHypothesis =>
      have positive := character.utf8Size_pos
      simp only [byteLength, List.map_cons, List.sum_cons, List.length_cons] at inductionHypothesis ⊢
      omega

/-- An occurrence inside another one that is not longer in bytes is the same. -/
theorem length_le_of_inside
    {first second : ℕ}
    (occurs : Occurs value text first)
    (inside : Occurs other text second)
    (low : first ≤ second)
    (high : second + other.length ≤ first + value.length)
    (bytes : byteLength value ≤ byteLength other) :
    value.length ≤ other.length := by
  obtain ⟨after, whole⟩ := occurs
  obtain ⟨distance, rfl⟩ := Nat.exists_eq_add_of_le low
  have short : distance ≤ value.length := by omega
  have part : other <+: value.drop distance := by
    rw [Occurs, ← List.drop_drop, ← whole, List.drop_append_of_le_length short] at inside
    refine List.prefix_of_prefix_length_le inside (List.prefix_append _ _) ?_
    rw [List.length_drop]
    omega
  obtain ⟨rest, split⟩ := part
  have sum : value = value.take distance ++ (other ++ rest) := by
    rw [split, List.take_append_drop]
  have front := length_le_byteLength (value.take distance)
  have back := length_le_byteLength rest
  rw [sum] at bytes ⊢
  simp only [byteLength, List.map_append, List.sum_append, List.length_append] at *
  omega

/-- What is hidden when some values have been replaced: their occurrences and nothing else. -/
structure RedactionProgress (text : List Char) (done : List (List Char)) (items : List Tagged) : Prop where
  partly : Partly text '<' '>' 0 items
  hidden : ∀ value ∈ done, ∀ first, Occurs value text first →
    ∀ position, first ≤ position → position < first + value.length → ¬Kept items position
  cause : ∀ position < text.length, ¬Kept items position →
    ∃ value ∈ done, ∃ first, Occurs value text first ∧ first ≤ position ∧
      position < first + value.length

/-- A value without the marks of the marker. -/
def Unmarked (value : List Char) : Prop := value ≠ [] ∧ '<' ∉ value ∧ '>' ∉ value

theorem marked_of_unmarked (unmarked : Unmarked value) :
    Marked '<' '>' value redactedMarker
      ("redacted".toList.map fun character => (character, none)) where
  shape := by decide
  blank := by decide
  nonempty := unmarked.1
  unopened := unmarked.2.1
  unclosed := unmarked.2.2

/-- Replacing one more value hides its occurrences. -/
theorem RedactionProgress.replace
    {done : List (List Char)}
    {items : List Tagged}
    (progress : RedactionProgress text done items)
    (unmarked : Unmarked value)
    (longer : ∀ other ∈ done, byteLength value ≤ byteLength other)
    (nested : ∀ other ∈ value :: done, Nesting text value other) :
    RedactionProgress text (value :: done) (replaceAll Prod.fst value redactedMarker items) := by
  have marked := marked_of_unmarked unmarked
  have gone : ∀ position, ¬Kept items position →
      ¬Kept (replaceAll Prod.fst value redactedMarker items) position :=
    fun position hidden still => hidden (kept_of_replaceTagged marked.blank_marker still)
  have apart : ∀ first second, Occurs value text first → Occurs value text second →
      first < second → first + value.length ≤ second := by
    intro first second atFirst atSecond before
    by_contra overlapping
    have := nested value List.mem_cons_self first second atFirst atSecond (by omega) (by omega)
    omega
  refine ⟨marked.partly_replaceTagged progress.partly (leadKept_zero _), ?_, ?_⟩
  · intro named member first occurs position low high
    obtain rfl | member := List.mem_cons.mp member
    · by_cases intact : ∀ position, first ≤ position → position < first + named.length →
          Kept items position
      · exact marked.hidden_of_occurs apart progress.partly (leadKept_zero _) (Nat.zero_le _) occurs
          intact low high
      · push Not at intact
        obtain ⟨hole, holeLow, holeHigh, missing⟩ := intact
        have inText : hole < text.length := by
          have short := occurs.length_le
          rw [List.length_drop] at short
          omega
        obtain ⟨other, otherMember, second, otherOccurs, secondLow, secondHigh⟩ :=
          progress.cause hole inText missing
        have enclosed : second ≤ first ∧ first + named.length ≤ second + other.length := by
          obtain inner | outer := nested other (List.mem_cons_of_mem _ otherMember) first second
            occurs otherOccurs (by omega) (by omega)
          · have same := length_le_of_inside occurs otherOccurs inner.1 inner.2
              (longer other otherMember)
            omega
          · exact outer
        exact gone position (progress.hidden other otherMember second otherOccurs position
          (by omega) (by omega))
    · exact gone position (progress.hidden named member first occurs position low high)
  · intro position small missing
    by_cases kept : Kept items position
    · obtain ⟨first, occurs, low, high⟩ := marked.occurs_of_hidden progress.partly
        (leadKept_zero _) (Nat.zero_le _) kept missing
      exact ⟨value, List.mem_cons_self, first, occurs, low, high⟩
    · obtain ⟨other, member, found⟩ := progress.cause position small kept
      exact ⟨other, List.mem_cons_of_mem _ member, found⟩

/-- Replacing values in turn hides the occurrences of all of them. -/
theorem RedactionProgress.foldl
    {done values : List (List Char)}
    {items : List Tagged}
    (progress : RedactionProgress text done items)
    (unmarked : ∀ value ∈ values, Unmarked value)
    (sorted : (done.reverse ++ values).Pairwise fun left right =>
      byteLength right ≤ byteLength left)
    (nested : ∀ value ∈ values, ∀ other ∈ done.reverse ++ values, Nesting text value other) :
    RedactionProgress text (values.reverse ++ done) (values.foldl (fun redacted value =>
      replaceAll Prod.fst value redactedMarker redacted) items) := by
  induction values generalizing done items with
  | nil => exact progress
  | cons value rest inductionHypothesis =>
      have regroup : (value :: done).reverse ++ rest = done.reverse ++ value :: rest := by simp
      have longer : ∀ other ∈ done, byteLength value ≤ byteLength other := fun other member =>
        (List.pairwise_append.mp sorted).2.2 other (List.mem_reverse.mpr member) value
          List.mem_cons_self
      have next := progress.replace (unmarked value List.mem_cons_self) longer
        fun other member => nested value List.mem_cons_self other (by
          simp only [List.mem_append, List.mem_reverse, List.mem_cons] at member ⊢
          tauto)
      rw [List.foldl_cons, List.reverse_cons, List.append_assoc, List.singleton_append]
      refine inductionHypothesis next
        (fun other member => unmarked other (List.mem_cons_of_mem _ member)) ?_ ?_
      · rw [regroup]
        exact sorted
      · rw [regroup]
        exact fun other member => nested other (List.mem_cons_of_mem _ member)

end Origins

end Cli
end Jiji
