import FiniteState.Automaton.Combination
import FiniteState.Regex.Basic

/-!
# Automata of Trees

Every tree is turned into an atomic automaton: a leaf into two states with an edge for each of its
characters, an inner node into a combination of the automata of its children. This fails only at a
leaf with a character that is not a symbol, and at a leaf where the character is missing. The first
of these, from left to right, is reported. The ranges of a leaf are checked one after another, so
none is listed after one that fails.

## Main definitions

* `charactersBetween`: The characters of a closed range.
* `checkSymbols`: Characters that have to be symbols.
* `singleEdges`: The automaton of a leaf.
* `Regex.compile`: The automaton of a tree.

## Theorems

* `checkSymbols_eq_ok_iff`: Characters pass the check if each of them is a symbol.
-/

namespace FiniteState

/-- The characters of a closed range in ascending order, none if the ends are exchanged. -/
def charactersBetween (low high : Char) : List Char :=
  (List.range' low.toNat (high.toNat + 1 - low.toNat)).map Char.ofNat

/-- Characters that have to be symbols. The first that is none is reported. -/
def checkSymbols (characters : List Char) : Except Automaton.Fault (List Char) :=
  match characters.find? fun c => !isSymbol c with
  | some c => .error (.invalidSymbol (String.singleton c))
  | none => .ok characters

/-- Two states with an edge from the first to the second for each character. -/
def singleEdges (characters : List Char) : Automaton where
  size := 2
  starting := .ofList [0]
  final := .ofList [1]
  edges := .ofList (characters.map fun c => Edge.mk 0 1 (some c))

theorem checkSymbols_eq_ok_iff {characters found : List Char} :
    checkSymbols characters = .ok found ↔
      found = characters ∧ ∀ c ∈ characters, isSymbol c = true := by
  unfold checkSymbols
  split
  next c h =>
    simp only [reduceCtorEq, false_iff, not_and]
    intro _ hall
    have hc := List.find?_some h
    simp [hall c (List.mem_of_find?_eq_some h)] at hc
  next h =>
    simp only [List.find?_eq_none, Bool.not_eq_true', Bool.not_eq_false] at h
    simp only [Except.ok.injEq, eq_comm (a := characters), iff_self_and]
    exact fun _ => h

namespace Regex

mutual

/-- The automaton of a tree. -/
def compile : Regex → Except Automaton.Fault Automaton
  | character symbols => do return singleEdges (← checkSymbols symbols)
  | characterSet ranges => do
    let characters ← ranges.mapM fun range => checkSymbols (charactersBetween range.1 range.2)
    return singleEdges characters.flatten
  | wildcard => return singleEdges symbols
  | missing => throw .missingCharacter
  | concatenation parts => do Automaton.concatenation (← compileAll parts)
  | alternation branches => do Automaton.disjunction (← compileAll branches)
  | iteration body => do Automaton.iteration (← compile body)
  | optional body => do Automaton.option (← compile body)

/-- The automata of trees, from left to right. -/
def compileAll : List Regex → Except Automaton.Fault (List Automaton)
  | [] => return []
  | node :: rest => do
    let A ← compile node
    let others ← compileAll rest
    return A :: others

end

end Regex

end FiniteState
