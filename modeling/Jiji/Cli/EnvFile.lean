import Jiji.Agent.Membership

/-!
# Environment files

An environment file is read line by line.  A quoted value that is not closed on its line goes on
over the following ones.  Every line that starts an entry is trimmed as a whole, also when its
end lies inside a quoted value.
-/

namespace Jiji
namespace Cli

open Std (ExtTreeMap)
open Agent (isWhitespace)

section Parsing

def doubleQuote : Char := '\x22'

def singleQuote : Char := '\x27'

/-- Remove white space from the end of a text. -/
def trimEnd (text : List Char) : List Char := text.rdropWhile isWhitespace

/-- Remove white space from both ends of a text. -/
def trim (text : List Char) : List Char := trimEnd (text.dropWhile isWhitespace)

def isValidEnvVarName : List Char → Bool
  | [] => false
  | first :: rest =>
      (first.isAlpha || first == '_') &&
        rest.all fun character => character.isAlphanum || character == '_'

/-- The text before a blank that is followed by a number sign. -/
def beforeComment : List Char → Option (List Char)
  | [] => none
  | character :: rest =>
      if character == ' ' && rest.head? == some '#' then some []
      else (beforeComment rest).map (character :: ·)

/-- A quoted value that is not closed yet, with the lines that it has so far. -/
structure OpenValue where
  key : List Char
  quote : Char
  text : List Char
  deriving DecidableEq, Repr

/-- What a line that is not inside a quoted value is. -/
inductive EnvLine
  | skipped
  | entry (key value : List Char)
  | opened (value : OpenValue)
  deriving DecidableEq, Repr

/-- Read the value of an entry. -/
def readValue (key : List Char) : List Char → EnvLine
  | [] => .entry key []
  | quote :: rest =>
      if quote == doubleQuote || quote == singleQuote then
        if rest.contains quote then .entry key (rest.takeWhile (· != quote))
        else .opened ⟨key, quote, rest⟩
      else .entry key (((beforeComment (quote :: rest)).map trim).getD (quote :: rest))

/-- Read a line that is not inside a quoted value. -/
def readLine (line : List Char) : EnvLine :=
  let trimmed := trim line
  if trimmed.isEmpty || trimmed.head? == some '#' || !trimmed.contains '=' then .skipped
  else
    let key := trim (trimmed.takeWhile (· != '='))
    if isValidEnvVarName key then readValue key (trim (trimmed.dropWhile (· != '=')).tail)
    else .skipped

def insertText (result : ExtTreeMap String String) (key value : List Char) :
    ExtTreeMap String String :=
  result.insert (String.ofList key) (String.ofList value)

/-- Read lines, the first of which may be inside a quoted value. -/
def parseLines : Option OpenValue → ExtTreeMap String String → List (List Char) →
    ExtTreeMap String String
  | none, result, [] => result
  | some pending, result, [] => insertText result pending.key pending.text
  | none, result, line :: lines =>
      match readLine line with
      | .skipped => parseLines none result lines
      | .entry key value => parseLines none (insertText result key value) lines
      | .opened value => parseLines (some value) result lines
  | some pending, result, line :: lines =>
      if line.contains pending.quote then
        parseLines none (insertText result pending.key
          (pending.text ++ '\n' :: line.takeWhile (· != pending.quote))) lines
      else parseLines (some { pending with text := pending.text ++ '\n' :: line }) result lines

def parseEnvFile (content : String) : ExtTreeMap String String :=
  parseLines none ∅ (content.toList.splitOn '\n')

end Parsing

section Writing

/-- The text of an entry with a quoted value, without its line end. -/
def quotedEntry (key value : String) : List Char :=
  key.toList ++ '=' :: doubleQuote :: (value.toList ++ [doubleQuote])

/-- The file with an entry for each pair. -/
def writeEnvFile (pairs : List (String × String)) : String :=
  String.ofList (pairs.flatMap fun pair => quotedEntry pair.1 pair.2 ++ ['\n'])

/-- The value that is read for a quoted one: its first line has lost the white space at its end,
unless it is the only one. -/
def readBack (value : String) : String :=
  if value.toList.contains '\n' then
    String.ofList (trimEnd (value.toList.takeWhile (· != '\n')) ++
      value.toList.dropWhile (· != '\n'))
  else value

/-- A value of one line, or one whose first line does not end with white space. -/
def FirstLineKept (value : String) : Prop :=
  '\n' ∉ value.toList ∨
    ∀ character, (value.toList.takeWhile (· != '\n')).getLast? = some character →
      isWhitespace character = false

/-- A pair that can be written: the key is valid and the value has no double quote. -/
structure Writable (pair : String × String) : Prop where
  key : isValidEnvVarName pair.1.toList
  value : doubleQuote ∉ pair.2.toList

end Writing

section Reading

variable {key value text line : List Char} {result : ExtTreeMap String String}
variable {lines : List (List Char)}

theorem trimEnd_append_cons {character : Char} (solid : isWhitespace character = false) :
    trimEnd (key ++ character :: text) = key ++ character :: trimEnd text := by
  unfold trimEnd
  induction text using List.reverseRecOn with
  | nil => exact List.rdropWhile_concat_neg _ _ _ (by simp [solid])
  | append_singleton text last inductionHypothesis =>
      have regroup : key ++ character :: (text ++ [last]) = (key ++ character :: text) ++ [last] := by
        simp
      rw [regroup]
      by_cases blank : isWhitespace last
      · rw [List.rdropWhile_concat_pos _ _ _ blank, List.rdropWhile_concat_pos _ _ _ blank,
          inductionHypothesis]
      · rw [List.rdropWhile_concat_neg _ _ _ blank, List.rdropWhile_concat_neg _ _ _ blank, regroup]

theorem trimEnd_cons {character : Char} (solid : isWhitespace character = false) :
    trimEnd (character :: text) = character :: trimEnd text :=
  @trimEnd_append_cons [] text character solid

theorem trim_cons {character : Char} (solid : isWhitespace character = false) :
    trim (character :: text) = character :: trimEnd text := by
  rw [trim, List.dropWhile_cons_of_neg (by simp [solid]), trimEnd_cons solid]

/-- The characters of a valid name. -/
theorem isValidEnvVarName_mem
    (valid : isValidEnvVarName key)
    (member : character ∈ key) :
    character.isAlphanum ∨ character = '_' := by
  cases key with
  | nil => cases member
  | cons first rest =>
      simp only [isValidEnvVarName, Bool.and_eq_true, Bool.or_eq_true, beq_iff_eq,
        List.all_eq_true] at valid
      obtain rfl | later := List.mem_cons.mp member
      · exact valid.1.imp (fun letter => by simp [Char.isAlphanum, letter]) id
      · exact valid.2 _ later

theorem solid_of_valid
    (valid : isValidEnvVarName key)
    (member : character ∈ key) :
    isWhitespace character = false := by
  obtain plain | rfl := isValidEnvVarName_mem valid member
  · exact Agent.isWhitespace_of_isAlphanum plain
  · decide

theorem trim_of_valid (valid : isValidEnvVarName key) : trim key = key := by
  cases key with
  | nil => rfl
  | cons first rest =>
      rw [trim_cons (solid_of_valid valid List.mem_cons_self), trimEnd]
      congr 1
      refine List.rdropWhile_eq_self_iff.mpr fun nonempty => ?_
      rw [solid_of_valid valid (List.mem_cons_of_mem _ (List.getLast_mem nonempty))]
      exact Bool.false_ne_true

/-- The line that starts a quoted entry, trimmed. -/
theorem trim_quoted (valid : isValidEnvVarName key) :
    trim (key ++ '=' :: doubleQuote :: text) = key ++ '=' :: doubleQuote :: trimEnd text := by
  cases key with
  | nil => cases valid
  | cons first rest =>
      rw [List.cons_append, trim_cons (solid_of_valid valid List.mem_cons_self),
        trimEnd_append_cons (by decide), trimEnd_cons (by decide)]
      rfl

/-- The line that starts a quoted entry, whatever follows the quote. -/
theorem readLine_quoted (valid : isValidEnvVarName key) :
    readLine (key ++ '=' :: doubleQuote :: text) =
      if (trimEnd text).contains doubleQuote then
        .entry key ((trimEnd text).takeWhile (· != doubleQuote))
      else .opened ⟨key, doubleQuote, trimEnd text⟩ := by
  have plain : ∀ character ∈ key, (character != '=') = true := by
    intro character member
    rw [bne_iff_ne]
    rintro rfl
    exact absurd (isValidEnvVarName_mem valid member) (by decide)
  have kept : ((key ++ '=' :: doubleQuote :: trimEnd text).isEmpty ||
      (key ++ '=' :: doubleQuote :: trimEnd text).head? == some '#' ||
      !(key ++ '=' :: doubleQuote :: trimEnd text).contains '=') = false := by
    cases key with
    | nil => cases valid
    | cons first rest =>
        have head : first ≠ '#' := by
          rintro rfl
          exact absurd (isValidEnvVarName_mem valid List.mem_cons_self) (by decide)
        simp [head]
  unfold readLine
  simp only [trim_quoted valid, kept]
  rw [if_neg Bool.false_ne_true, List.takeWhile_append_of_pos plain,
    List.dropWhile_append_of_pos plain, List.takeWhile_cons_of_neg (by decide),
    List.dropWhile_cons_of_neg (by decide), List.append_nil, trim_of_valid valid, if_pos valid,
    List.tail_cons, trim_cons (by decide), trimEnd, trimEnd, List.rdropWhile_idempotent]
  rfl

theorem splitOn_append_cons (line rest : List Char) :
    (line ++ '\n' :: rest).splitOn '\n' = line.splitOn '\n' ++ rest.splitOn '\n' :=
  List.splitOnP_append_cons line rest (by decide)

theorem splitOn_of_not_mem (whole : '\n' ∉ line) : line.splitOn '\n' = [line] :=
  List.splitOnP_eq_singleton
    fun _ member => beq_false_of_ne (ne_of_mem_of_not_mem member whole)

theorem takeWhile_of_not_mem
    {mark : Char}
    (absent : mark ∉ text) :
    (text ++ mark :: line).takeWhile (· != mark) = text ∧
      (text ++ mark :: line).dropWhile (· != mark) = mark :: line := by
  have plain : ∀ character ∈ text, (character != mark) = true :=
    fun _ member => bne_iff_ne.mpr (ne_of_mem_of_not_mem member absent)
  rw [List.takeWhile_append_of_pos plain, List.dropWhile_append_of_pos plain,
    List.takeWhile_cons_of_neg (by simp), List.dropWhile_cons_of_neg (by simp)]
  exact ⟨List.append_nil _, rfl⟩

/-- The lines of a quoted value after the first one are read verbatim. -/
theorem parseLines_pending
    (unquoted : doubleQuote ∉ value)
    (lines : List (List Char)) :
    parseLines (some ⟨key, doubleQuote, text⟩) result
        ((value ++ [doubleQuote]).splitOn '\n' ++ lines) =
      parseLines none (insertText result key (text ++ '\n' :: value)) lines := by
  induction counted : value.length using Nat.strong_induction_on generalizing value text with
  | _ size inductionHypothesis =>
      by_cases broken : '\n' ∈ value
      · obtain ⟨line, rest, rfl, whole⟩ := List.eq_append_cons_of_mem broken
        simp only [List.mem_append, List.mem_cons, not_or] at unquoted
        have inLine : line.contains doubleQuote = false := by simp [unquoted.1]
        have shorter : rest.length < size := by
          rw [← counted, List.length_append, List.length_cons]
          omega
        rw [List.append_assoc, List.cons_append, splitOn_append_cons, splitOn_of_not_mem whole,
          List.append_assoc, List.singleton_append]
        simp only [parseLines, inLine]
        rw [if_neg Bool.false_ne_true, inductionHypothesis _ shorter unquoted.2.2 rfl]
        simp
      · have whole : '\n' ∉ value ++ [doubleQuote] := by
          simp only [List.mem_append, List.mem_singleton, not_or]
          exact ⟨broken, by decide⟩
        rw [splitOn_of_not_mem whole]
        simp [parseLines, (takeWhile_of_not_mem unquoted).1]

/-- A written entry is read with the value that is read back. -/
theorem parseLines_quotedEntry
    {key value : String}
    (writable : Writable (key, value))
    (lines : List (List Char)) :
    parseLines none result ((quotedEntry key value).splitOn '\n' ++ lines) =
      parseLines none (result.insert key (readBack value)) lines := by
  obtain ⟨valid, unquoted⟩ := writable
  have plainKey : '\n' ∉ key.toList := fun member =>
    absurd (isValidEnvVarName_mem valid member) (by decide)
  by_cases broken : '\n' ∈ value.toList
  · obtain ⟨first, rest, split, whole⟩ := List.eq_append_cons_of_mem broken
    have back : readBack value = String.ofList (trimEnd first ++ '\n' :: rest) := by
      rw [readBack, if_pos (List.contains_iff_mem.mpr broken), split,
        (takeWhile_of_not_mem whole).1, (takeWhile_of_not_mem whole).2]
    simp only [split, List.mem_append, List.mem_cons, not_or] at unquoted
    have unclosed : (trimEnd first).contains doubleQuote = false := by
      have absent : doubleQuote ∉ trimEnd first := fun member =>
        unquoted.1 ((List.rdropWhile_prefix _ _).subset member)
      simp [absent]
    have start : '\n' ∉ key.toList ++ '=' :: doubleQuote :: first := by
      simp only [List.mem_append, List.mem_cons, not_or]
      exact ⟨plainKey, by decide, by decide, whole⟩
    have regroup : quotedEntry key value =
        (key.toList ++ '=' :: doubleQuote :: first) ++ '\n' :: (rest ++ [doubleQuote]) := by
      simp [quotedEntry, split]
    rw [regroup, splitOn_append_cons, splitOn_of_not_mem start, List.append_assoc,
      List.singleton_append]
    simp only [parseLines, readLine_quoted valid, unclosed]
    rw [if_neg Bool.false_ne_true]
    simp only
    rw [parseLines_pending unquoted.2.2, insertText, ← back, String.ofList_toList]
  · have back : readBack value = value := by
      rw [readBack, if_neg (by simpa using broken)]
    have whole : '\n' ∉ quotedEntry key value := by
      simp only [quotedEntry, List.mem_append, List.mem_cons, not_or]
      exact ⟨plainKey, by decide, by decide, broken, by decide, List.not_mem_nil⟩
    have closed : trimEnd (value.toList ++ [doubleQuote]) = value.toList ++ [doubleQuote] :=
      trimEnd_append_cons (by decide)
    rw [splitOn_of_not_mem whole, List.singleton_append, back]
    simp only [parseLines, quotedEntry, readLine_quoted valid, closed]
    rw [if_pos (by simp), (takeWhile_of_not_mem unquoted).1]
    simp [insertText]

/-- A written file is read with the values that are read back. -/
theorem parseLines_writeEnvFile
    {pairs : List (String × String)}
    (writable : ∀ pair ∈ pairs, Writable pair) :
    parseLines none result ((writeEnvFile pairs).toList.splitOn '\n') =
      pairs.foldl (fun written pair => written.insert pair.1 (readBack pair.2)) result := by
  induction pairs generalizing result with
  | nil => rfl
  | cons pair rest inductionHypothesis =>
      obtain ⟨first, others⟩ := List.forall_mem_cons.mp writable
      have regroup : (writeEnvFile (pair :: rest)).toList =
          quotedEntry pair.1 pair.2 ++ '\n' :: (writeEnvFile rest).toList := by
        simp [writeEnvFile]
      rw [regroup, splitOn_append_cons, parseLines_quotedEntry first, inductionHypothesis others,
        List.foldl_cons]

end Reading

section RoundTrip

/-- The last value that is written for each key. -/
def lastValues (pairs : List (String × String)) : ExtTreeMap String String :=
  pairs.foldl (fun written pair => written.insert pair.1 pair.2) ∅

theorem getElem?_foldl_readBack
    (pairs : List (String × String))
    (written readers : ExtTreeMap String String)
    (related : ∀ key : String, readers[key]? = written[key]?.map readBack)
    (key : String) :
    (pairs.foldl (fun written pair => written.insert pair.1 (readBack pair.2)) readers)[key]? =
      (pairs.foldl (fun written pair => written.insert pair.1 pair.2) written)[key]?.map
        readBack := by
  induction pairs generalizing written readers with
  | nil => exact related key
  | cons pair rest inductionHypothesis =>
      refine inductionHypothesis _ _ fun other => ?_
      rw [ExtTreeMap.getElem?_insert, ExtTreeMap.getElem?_insert]
      split
      · rfl
      · exact related other

theorem readBack_eq_iff {value : String} : readBack value = value ↔ FirstLineKept value := by
  unfold readBack FirstLineKept
  by_cases broken : '\n' ∈ value.toList
  · rw [if_pos (List.contains_iff_mem.mpr broken)]
    have joined : value.toList.takeWhile (· != '\n') ++ value.toList.dropWhile (· != '\n') =
        value.toList := List.takeWhile_append_dropWhile
    rw [← String.toList_inj, String.toList_ofList]
    nth_rewrite 3 [← joined]
    rw [List.append_left_inj, trimEnd, List.rdropWhile_eq_self_iff]
    simp only [broken, not_true_eq_false, false_or, Bool.not_eq_true]
    constructor
    · intro solid character last
      have nonempty : value.toList.takeWhile (· != '\n') ≠ [] := by
        intro empty
        rw [empty] at last
        cases last
      rw [List.getLast?_eq_some_getLast nonempty] at last
      exact Option.some.inj last ▸ solid nonempty
    · exact fun solid nonempty => solid _ (List.getLast?_eq_some_getLast nonempty)
  · rw [if_neg (by simpa using broken)]
    simp [broken]

end RoundTrip

/-- Quoted values are read verbatim exactly if the last value of every key has one line only, or
its first line does not end with white space. -/
theorem parseEnvFile_verbatim_iff
    (pairs : List (String × String))
    (writable : ∀ pair ∈ pairs, Writable pair) :
    parseEnvFile (writeEnvFile pairs) = lastValues pairs ↔
      ∀ key value : String, (lastValues pairs)[key]? = some value → FirstLineKept value := by
  have read : ∀ key : String, (parseEnvFile (writeEnvFile pairs))[key]? =
      (lastValues pairs)[key]?.map readBack := by
    intro key
    rw [parseEnvFile, parseLines_writeEnvFile writable]
    exact getElem?_foldl_readBack pairs ∅ ∅ (fun _ => by simp) key
  constructor
  · intro same key value last
    have atKey := read key
    rw [same, last, Option.map_some, Option.some.injEq] at atKey
    exact readBack_eq_iff.mp atKey.symm
  · intro kept
    refine ExtTreeMap.ext_getElem? fun key => ?_
    rw [read key]
    cases last : (lastValues pairs)[key]? with
    | none => rfl
    | some value => rw [Option.map_some, readBack_eq_iff.mpr (kept key value last)]

/-- A value with blanks at its end and a line that looks like an entry. -/
theorem parseEnvFile_verbatim_sample :
    parseEnvFile (writeEnvFile [("A", "x"), ("A", " first\n# B=2 \n ")]) =
      lastValues [("A", "x"), ("A", " first\n# B=2 \n ")] := by
  refine (parseEnvFile_verbatim_iff _ ?_).mpr ?_
  · intro pair member
    obtain rfl | rfl : pair = ("A", "x") ∨ pair = ("A", " first\n# B=2 \n ") := by
      simpa using member
    all_goals exact ⟨by decide, by decide⟩
  · intro key value last
    rw [lastValues, List.foldl_cons, List.foldl_cons, List.foldl_nil,
      ExtTreeMap.getElem?_insert] at last
    split at last
    · obtain rfl := Option.some.inj last
      refine Or.inr fun character ends => ?_
      obtain rfl : 't' = character := Option.some.inj ends
      decide
    · rename_i other
      rw [ExtTreeMap.getElem?_insert, if_neg other] at last
      cases last

/-- The blank at the end of the first line of a value is lost. -/
theorem parseEnvFile_trims_first_line :
    (parseEnvFile (writeEnvFile [("A", "x \ny")]))["A"]? = some "x\ny" ∧
      (lastValues [("A", "x \ny")])["A"]? = some "x \ny" := by
  decide +kernel

end Cli
end Jiji
