import Mathlib.Data.List.DropRight
import Mathlib.Tactic.Common

/-!
# Texts made of lines

A text is cut at its line ends, and its lines are edited one by one.
-/

namespace Jiji
namespace Text

section Lines

/-- Edit the lines of a text, leaving the line ends in place. -/
def mapLines (edit : List Char → List Char) (text : List Char) : List Char :=
  ['\n'].intercalate ((text.splitOnP (· = '\n')).map edit)

end Lines

section Substitution

/-- Replace the first occurrence of a pattern. -/
def replaceFirst (pattern replacement : List Char) : List Char → List Char
  | [] => if pattern = [] then replacement else []
  | character :: text =>
      if pattern.isPrefixOf (character :: text) then
        replacement ++ (character :: text).drop pattern.length
      else character :: replaceFirst pattern replacement text

end Substitution

end Text
end Jiji
