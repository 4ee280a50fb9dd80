import Mathlib

/-!
# Replacement of all occurrences

All occurrences of a text are replaced from left to right, each after the end of the one before
it.  Characters may carry the position that they came from.  If the marker that is put in begins
and ends with characters that no replaced text has, then replacing one text after the other only
hides whole stretches of the original.
-/

namespace Jiji
namespace Text

variable {α β : Type*}

section Replacing

variable (letter : α → Char) (value : List Char) (marker : List α)

/-- Replace the occurrences of a text, after some characters that belong to the last one. -/
def replaceFrom : ℕ → List α → List α
  | _, [] => []
  | skip + 1, _ :: rest => replaceFrom skip rest
  | 0, item :: rest =>
      if value.isPrefixOf ((item :: rest).map letter) then
        marker ++ replaceFrom (value.length - 1) rest
      else item :: replaceFrom 0 rest

def replaceAll (items : List α) : List α := replaceFrom letter value marker 0 items

variable {letter value marker} {skip : ℕ} {items : List α}

/-- An occurrence does not reach over a letter that the text does not have. -/
theorem replaceFrom_append_cons
    {item : α}
    {left right : List α}
    (absent : letter item ∉ value)
    (nonempty : value ≠ [])
    (small : skip ≤ left.length) :
    replaceFrom letter value marker skip (left ++ item :: right) =
      replaceFrom letter value marker skip left ++
        item :: replaceFrom letter value marker 0 right := by
  have reach : ∀ letters others : List Char, value.isPrefixOf (letters ++ letter item :: others) =
      value.isPrefixOf letters := by
    intro letters others
    rw [Bool.eq_iff_iff, List.isPrefixOf_iff_prefix, List.isPrefixOf_iff_prefix]
    refine ⟨fun starts => ?_, fun starts => starts.trans (List.prefix_append _ _)⟩
    refine List.prefix_of_prefix_length_le starts (List.prefix_append _ _) ?_
    by_contra longer
    have inside : letters ++ [letter item] <+: value :=
      List.prefix_of_prefix_length_le ⟨others, by simp⟩ starts (by simpa using longer)
    exact absent (inside.subset (by simp))
  induction left generalizing skip with
  | nil =>
      obtain rfl := Nat.le_zero.mp small
      have missed := reach [] (right.map letter)
      rw [List.nil_append] at missed
      have never : value.isPrefixOf ([] : List Char) = false := by
        cases value with
        | nil => exact absurd rfl nonempty
        | cons head rest => rfl
      simp only [List.nil_append, replaceFrom, List.map_cons, missed, never]
      rfl
  | cons head left inductionHypothesis =>
      cases skip with
      | succ skip => exact inductionHypothesis (Nat.le_of_succ_le_succ small)
      | zero =>
          have same := reach (letter head :: left.map letter) (right.map letter)
          simp only [List.cons_append, replaceFrom, List.map_cons, List.map_append] at same ⊢
          rw [same]
          split
          · rename_i starts
            have long := (List.isPrefixOf_iff_prefix.mp starts).length_le
            simp only [List.length_cons, List.length_map] at long
            rw [inductionHypothesis (by omega), List.append_assoc]
          · rw [inductionHypothesis (Nat.zero_le _), List.cons_append]

end Replacing

section Origins

/-- A character with the position that it came from, if it is not part of a marker. -/
abbrev Tagged := Char × Option ℕ

/-- A position whose character is still there. -/
def Kept (items : List Tagged) (position : ℕ) : Prop := ∃ character, (character, some position) ∈ items

/-- What is left of a text from a position on: characters in place, and markers between two
marks that each stand for at least one character. -/
inductive Partly (text : List Char) (opening closing : Char) : ℕ → List Tagged → Prop
  | done : Partly text opening closing text.length []
  | keep {position : ℕ} {character : Char} {rest : List Tagged} :
      text[position]? = some character → Partly text opening closing (position + 1) rest →
      Partly text opening closing position ((character, some position) :: rest)
  | hide {position next : ℕ} {hidden rest : List Tagged} :
      position < next → (∀ item ∈ hidden, item.2 = none) →
      Partly text opening closing next rest →
      Partly text opening closing position
        ((opening, none) :: (hidden ++ (closing, none) :: rest))

variable {text value : List Char} {opening closing : Char} {position start : ℕ}
variable {items inner : List Tagged}

theorem kept_cons_iff {character : Char} :
    Kept ((character, some start) :: items) position ↔ position = start ∨ Kept items position := by
  simp [Kept, exists_or]

theorem kept_hide_iff
    {hidden : List Tagged}
    (blank : ∀ item ∈ hidden, item.2 = none) :
    Kept ((opening, none) :: (hidden ++ (closing, none) :: items)) position ↔
      Kept items position := by
  have absent : ∀ character, (character, some position) ∉ hidden :=
    fun character member => nomatch blank _ member
  simp [Kept, absent]

theorem Partly.le_of_kept
    (partly : Partly text opening closing start items)
    (kept : Kept items position) :
    start ≤ position := by
  induction partly with
  | done =>
      obtain ⟨_, member⟩ := kept
      cases member
  | keep _ _ inductionHypothesis =>
      obtain rfl | later := kept_cons_iff.mp kept
      · exact le_rfl
      · exact (Nat.le_succ _).trans (inductionHypothesis later)
  | hide before blank _ inductionHypothesis =>
      exact before.le.trans (inductionHypothesis ((kept_hide_iff blank).mp kept))

/-- The given number of characters at the front are in place. -/
def LeadKept : ℕ → List Tagged → Prop
  | 0, _ => True
  | count + 1, (_, some _) :: rest => LeadKept count rest
  | _ + 1, _ => False

theorem leadKept_zero (items : List Tagged) : LeadKept 0 items := trivial

/-- Whether a text occurs at a position. -/
abbrev Occurs (value text : List Char) (position : ℕ) : Prop := value <+: text.drop position

theorem drop_eq_cons {character : Char} (found : text[position]? = some character) :
    text.drop position = character :: text.drop (position + 1) := by
  obtain ⟨small, rfl⟩ := List.getElem?_eq_some_iff.mp found
  exact List.drop_eq_getElem_cons small

/-- What is found without an opening mark occurs in the original. -/
theorem Partly.occurs_of_isPrefixOf
    (partly : Partly text opening closing start items)
    (unopened : opening ∉ value)
    (found : value.isPrefixOf (items.map Prod.fst)) :
    Occurs value text start ∧ LeadKept value.length items := by
  induction partly generalizing value with
  | done =>
      cases value with
      | nil => exact ⟨List.nil_prefix, trivial⟩
      | cons head rest => cases found
  | keep atStart _ inductionHypothesis =>
      cases value with
      | nil => exact ⟨List.nil_prefix, trivial⟩
      | cons head rest =>
          simp only [List.map_cons, List.isPrefixOf, Bool.and_eq_true, beq_iff_eq] at found
          obtain ⟨occurs, lead⟩ := inductionHypothesis (List.not_mem_of_not_mem_cons unopened) found.2
          rw [Occurs, drop_eq_cons atStart, found.1]
          exact ⟨List.cons_prefix_cons.mpr ⟨rfl, occurs⟩, lead⟩
  | hide _ _ _ _ =>
      cases value with
      | nil => exact ⟨List.nil_prefix, trivial⟩
      | cons head rest =>
          simp only [List.map_cons, List.isPrefixOf, Bool.and_eq_true, beq_iff_eq] at found
          exact absurd (found.1 ▸ List.mem_cons_self) unopened

/-- An occurrence whose characters are all in place is found. -/
theorem Partly.isPrefixOf_of_occurs
    (partly : Partly text opening closing start items)
    (occurs : Occurs value text start)
    (intact : ∀ position, start ≤ position → position < start + value.length →
      Kept items position) :
    value.isPrefixOf (items.map Prod.fst) := by
  induction partly generalizing value with
  | done =>
      rw [Occurs, List.drop_length, List.prefix_nil] at occurs
      rw [occurs]
      rfl
  | keep atStart partly inductionHypothesis =>
      cases value with
      | nil => rfl
      | cons head rest =>
          rw [Occurs, drop_eq_cons atStart, List.cons_prefix_cons] at occurs
          simp only [List.map_cons, List.isPrefixOf, Bool.and_eq_true, beq_iff_eq]
          refine ⟨occurs.1, inductionHypothesis occurs.2 fun position after before => ?_⟩
          have kept := intact position (by omega) (by
            rw [List.length_cons]
            omega)
          exact (kept_cons_iff.mp kept).resolve_left (by omega)
  | hide before blank partly _ =>
      cases value with
      | nil => rfl
      | cons head rest =>
          have kept := (kept_hide_iff blank).mp (intact _ le_rfl (by simp))
          exact absurd (partly.le_of_kept kept) before.not_ge

section Step

variable {marker : List Tagged} {skip : ℕ}

/-- Replace in a text whose characters carry their positions. -/
abbrev replaceTagged (value : List Char) (marker : List Tagged) : ℕ → List Tagged → List Tagged :=
  replaceFrom Prod.fst value marker

/-- A replacement brings no character back. -/
theorem kept_of_replaceTagged
    (blank : ∀ item ∈ marker, item.2 = none)
    (kept : Kept (replaceTagged value marker skip items) position) :
    Kept items position := by
  induction items generalizing skip with
  | nil => cases skip <;> exact kept
  | cons item rest inductionHypothesis =>
      obtain ⟨character, member⟩ := kept
      cases skip with
      | succ skip =>
          obtain ⟨other, later⟩ := inductionHypothesis ⟨character, member⟩
          exact ⟨other, List.mem_cons_of_mem _ later⟩
      | zero =>
          rw [replaceTagged, replaceFrom] at member
          split at member
          · obtain inMarker | member := List.mem_append.mp member
            · cases blank _ inMarker
            · obtain ⟨other, later⟩ := inductionHypothesis ⟨character, member⟩
              exact ⟨other, List.mem_cons_of_mem _ later⟩
          · obtain rfl | member := List.mem_cons.mp member
            · exact ⟨character, List.mem_cons_self⟩
            · obtain ⟨other, later⟩ := inductionHypothesis ⟨character, member⟩
              exact ⟨other, List.mem_cons_of_mem _ later⟩

/-- The marks of a marker, and a text that has neither of them. -/
structure Marked (opening closing : Char) (value : List Char) (marker inner : List Tagged) :
    Prop where
  shape : marker = (opening, none) :: (inner ++ [(closing, none)])
  blank : ∀ item ∈ inner, item.2 = none
  nonempty : value ≠ []
  unopened : opening ∉ value
  unclosed : closing ∉ value

variable (marked : Marked opening closing value marker inner)
include marked

theorem Marked.blank_marker : ∀ item ∈ marker, item.2 = none := by
  rw [marked.shape]
  intro item member
  simp only [List.mem_cons, List.mem_append, List.not_mem_nil, or_false] at member
  obtain rfl | inside | rfl := member
  · rfl
  · exact marked.blank item inside
  · rfl

/-- A replacement leaves a marker a marker. -/
theorem Marked.replaceTagged_hide {hidden rest : List Tagged} :
    replaceTagged value marker 0 ((opening, none) :: (hidden ++ (closing, none) :: rest)) =
      (opening, none) :: (replaceTagged value marker 0 hidden ++
        (closing, none) :: replaceTagged value marker 0 rest) := by
  have first := @replaceFrom_append_cons _ Prod.fst value marker 0 (opening, none) []
    (hidden ++ (closing, none) :: rest) marked.unopened marked.nonempty le_rfl
  have second := @replaceFrom_append_cons _ Prod.fst value marker 0 (closing, none) hidden rest
    marked.unclosed marked.nonempty (Nat.zero_le _)
  simp only [List.nil_append, second] at first
  exact first

theorem Marked.blank_replaceTagged
    {hidden : List Tagged}
    (blank : ∀ item ∈ hidden, item.2 = none) :
    ∀ item ∈ replaceTagged value marker 0 hidden, item.2 = none := by
  intro item member
  obtain ⟨character, tag⟩ := item
  cases tag with
  | none => rfl
  | some position =>
      obtain ⟨other, inHidden⟩ :=
        kept_of_replaceTagged marked.blank_marker ⟨character, member⟩
      cases blank _ inHidden

/-- What a replacement does at a character that is in place: it hides an occurrence that begins
there, or keeps the character. -/
theorem Marked.replaceTagged_keep
    {character : Char}
    {rest : List Tagged}
    (partly : Partly text opening closing start ((character, some start) :: rest)) :
    (Occurs value text start ∧ LeadKept (value.length - 1) rest ∧
        replaceTagged value marker 0 ((character, some start) :: rest) =
          marker ++ replaceTagged value marker (value.length - 1) rest) ∨
      (¬value.isPrefixOf (((character, some start) :: rest).map Prod.fst) ∧
        replaceTagged value marker 0 ((character, some start) :: rest) =
          (character, some start) :: replaceTagged value marker 0 rest) := by
  by_cases found : value.isPrefixOf (((character, some start) :: rest).map Prod.fst)
  · obtain ⟨occurs, lead⟩ := partly.occurs_of_isPrefixOf marked.unopened found
    refine Or.inl ⟨occurs, ?_, if_pos found⟩
    cases value with
    | nil => exact absurd rfl marked.nonempty
    | cons head others => exact lead
  · exact Or.inr ⟨found, if_neg found⟩

theorem Marked.add_length : start + 1 + (value.length - 1) = start + value.length := by
  have positive := List.length_pos_of_ne_nil marked.nonempty
  omega

/-- A replacement leaves a text that is partly hidden. -/
theorem Marked.partly_replaceTagged
    (partly : Partly text opening closing start items)
    (lead : LeadKept skip items) :
    Partly text opening closing (start + skip) (replaceTagged value marker skip items) := by
  induction partly generalizing skip with
  | done =>
      cases skip with
      | zero => exact .done
      | succ skip => cases lead
  | @keep start character rest atStart partly inductionHypothesis =>
      cases skip with
      | succ skip =>
          have next := inductionHypothesis lead
          rw [Nat.add_assoc, Nat.add_comm 1 skip] at next
          exact next
      | zero =>
          obtain ⟨_, leadRest, hides⟩ | ⟨_, keeps⟩ :=
            marked.replaceTagged_keep (.keep atStart partly)
          · have next := inductionHypothesis leadRest
            rw [marked.add_length] at next
            rw [hides]
            generalize replaceTagged value marker (value.length - 1) rest = replaced at next
            rw [marked.shape, List.cons_append, List.append_assoc, List.singleton_append]
            exact .hide (Nat.lt_add_of_pos_right (List.length_pos_of_ne_nil marked.nonempty))
              marked.blank next
          · rw [keeps]
            exact .keep atStart (inductionHypothesis (leadKept_zero _))
  | hide before blank _ inductionHypothesis =>
      cases skip with
      | succ skip => cases lead
      | zero =>
          rw [marked.replaceTagged_hide]
          exact .hide before (marked.blank_replaceTagged blank) (inductionHypothesis (leadKept_zero _))

/-- Only occurrences are hidden. -/
theorem Marked.occurs_of_hidden
    (partly : Partly text opening closing start items)
    (lead : LeadKept skip items)
    (after : start + skip ≤ position)
    (kept : Kept items position)
    (hidden : ¬Kept (replaceTagged value marker skip items) position) :
    ∃ first, Occurs value text first ∧ first ≤ position ∧ position < first + value.length := by
  induction partly generalizing skip with
  | done =>
      obtain ⟨_, member⟩ := kept
      cases member
  | @keep start character rest atStart partly inductionHypothesis =>
      cases skip with
      | succ skip =>
          exact inductionHypothesis lead (by omega)
            ((kept_cons_iff.mp kept).resolve_left (by omega)) hidden
      | zero =>
          obtain ⟨occurs, leadRest, hides⟩ | ⟨_, keeps⟩ :=
            marked.replaceTagged_keep (.keep atStart partly)
          · by_cases inside : position < start + value.length
            · exact ⟨start, occurs, after, inside⟩
            · refine inductionHypothesis leadRest (by rw [marked.add_length]; omega)
                ((kept_cons_iff.mp kept).resolve_left fun same => inside ?_) fun still => hidden ?_
              · have := List.length_pos_of_ne_nil marked.nonempty
                omega
              · obtain ⟨other, member⟩ := still
                rw [hides]
                exact ⟨other, List.mem_append_right _ member⟩
          · rw [keeps, kept_cons_iff, not_or] at hidden
            exact inductionHypothesis (leadKept_zero _) (by omega)
              ((kept_cons_iff.mp kept).resolve_left hidden.1) hidden.2
  | hide before blank partly inductionHypothesis =>
      cases skip with
      | succ skip => cases lead
      | zero =>
          rw [marked.replaceTagged_hide,
            kept_hide_iff (marked.blank_replaceTagged blank)] at hidden
          have keptRest := (kept_hide_iff blank).mp kept
          exact inductionHypothesis (leadKept_zero _) (partly.le_of_kept keptRest) keptRest hidden

/-- An occurrence whose characters are all in place is hidden, if no other one reaches into it. -/
theorem Marked.hidden_of_occurs
    (apart : ∀ first second, Occurs value text first → Occurs value text second →
      first < second → first + value.length ≤ second)
    (partly : Partly text opening closing start items)
    (lead : LeadKept skip items)
    {first : ℕ}
    (after : start + skip ≤ first)
    (occurs : Occurs value text first)
    (intact : ∀ position, first ≤ position → position < first + value.length →
      Kept items position)
    (low : first ≤ position)
    (high : position < first + value.length) :
    ¬Kept (replaceTagged value marker skip items) position := by
  induction partly generalizing skip with
  | done => exact fun still => nomatch still.choose_spec
  | @keep start character rest atStart partly inductionHypothesis =>
      have later : start < first → ∀ position, first ≤ position →
          position < first + value.length → Kept rest position := fun before position low high =>
        (kept_cons_iff.mp (intact position low high)).resolve_left (by omega)
      cases skip with
      | succ skip => exact inductionHypothesis lead (by omega) (later (by omega))
      | zero =>
          obtain ⟨atOnce, leadRest, hides⟩ | ⟨notFound, keeps⟩ :=
            marked.replaceTagged_keep (.keep atStart partly)
          · have spared : Kept (replaceTagged value marker 0 ((character, some start) :: rest))
                position → Kept (replaceTagged value marker (value.length - 1) rest) position := by
              rintro ⟨other, member⟩
              rw [hides] at member
              obtain inMarker | member := List.mem_append.mp member
              · cases marked.blank_marker _ inMarker
              · exact ⟨other, member⟩
            obtain rfl | before : start = first ∨ start < first := by omega
            · intro still
              have reached := (marked.partly_replaceTagged partly leadRest).le_of_kept
                (spared still)
              rw [marked.add_length] at reached
              omega
            · have room := apart start first atOnce occurs before
              exact fun still => inductionHypothesis leadRest (by rw [marked.add_length]; exact room)
                (later before) (spared still)
          · obtain rfl | before : start = first ∨ start < first := by omega
            · exact absurd ((Partly.keep atStart partly).isPrefixOf_of_occurs occurs intact) notFound
            · rw [keeps, kept_cons_iff, not_or]
              exact ⟨by omega, inductionHypothesis (leadKept_zero _) (by omega) (later before)⟩
  | hide before blank partly inductionHypothesis =>
      cases skip with
      | succ skip => cases lead
      | zero =>
          rw [marked.replaceTagged_hide, kept_hide_iff (marked.blank_replaceTagged blank)]
          have positive := List.length_pos_of_ne_nil marked.nonempty
          have keptRest := fun position low high =>
            (kept_hide_iff blank).mp (intact position low high)
          exact inductionHypothesis (leadKept_zero _)
            (partly.le_of_kept (keptRest first le_rfl (by omega))) keptRest

end Step

end Origins

end Text
end Jiji
