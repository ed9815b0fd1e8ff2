import FiniteState.Description.Fault
import FiniteState.Text.Cut
import FiniteState.Text.Lowercase

/-!
# Significant Lines and Patterns

The lines of a description that count are those that, stripped of the blanks at both ends, are not
empty and do not begin with `#`. A line that begins with `regex:` or `pattern:`, in any letter case,
declares the rest of it as a pattern.

## Main definitions

* `significantLines`: The lines that count, stripped.
* `declaredPattern?`: The pattern that a line declares.
* `isPattern`: Whether the first line that counts declares a pattern.
* `patternOf`: The pattern of the first line that declares one.

## Theorems

* `mem_significantLines`: What is left of a line that counts.
-/

namespace FiniteState

namespace Description

/-- The lines that are neither blank nor comments, without the blanks at their ends. -/
def significantLines (content : List Char) : List (List Char) :=
  ((Text.lines content).map Text.trim).filter fun line => line ≠ [] ∧ line.head? ≠ some '#'

theorem mem_significantLines {content core : List Char} :
    core ∈ significantLines content ↔
      ∃ line ∈ Text.lines content, Text.trim line = core ∧ core ≠ [] ∧ core.head? ≠ some '#' := by
  rw [significantLines, List.mem_filter, List.mem_map, decide_eq_true_iff]
  constructor
  · intro h
    rcases h with ⟨⟨line, hline, htrim⟩, hcore⟩
    exact ⟨line, hline, htrim, hcore⟩
  · intro h
    rcases h with ⟨line, hline, htrim, hcore⟩
    exact ⟨⟨line, hline, htrim⟩, hcore⟩

/-- The rest of a line after a keyword, which may be written in any letter case. -/
def afterKeyword? (keyword : String) (line : List Char) : Option (List Char) :=
  if keyword.toList.isPrefixOf (Text.lower line) then
    some (Text.trim (line.drop keyword.toList.length))
  else none

/-- The pattern that a line declares, if it does. -/
def declaredPattern? (line : List Char) : Option (List Char) :=
  (afterKeyword? "regex:" line).or (afterKeyword? "pattern:" line)

/-- Whether the first line that counts declares a pattern. -/
def isPattern (content : List Char) : Bool :=
  match significantLines content with
  | [] => false
  | line :: _ => (declaredPattern? line).isSome

/-- The pattern of the first line that declares one. -/
def patternOf (content : List Char) : Except Fault (List Char) :=
  match (significantLines content).findSome? declaredPattern? with
  | some pattern => .ok pattern
  | none => .error .noPattern

end Description

end FiniteState
