import FiniteState.Automaton.Subset
import FiniteState.Pattern.Parser
import FiniteState.Regex.Compilation

/-!
# Matching

A pattern is read into a tree, the tree turned into an automaton, and that automaton into the
smallest deterministic one. A matcher keeps the last, and decides whether the whole of a text is of
the pattern by walking from state to state, the next of which it looks up in a table of the edges.

## Main definitions

* `Pattern.Fault`: Why a pattern has no automaton.
* `Pattern.thompson`: The automaton of the tree of a pattern, epsilon edges included.
* `Matcher`: A pattern with its smallest deterministic automaton.
* `Matcher.ofPattern`: The matcher of a pattern.
* `Matcher.table`: The next state for every state and label.
* `Matcher.run`: Whether a text is of the pattern.
-/

namespace FiniteState

/-- Why a pattern has no automaton. -/
inductive Pattern.Fault
  /-- The pattern cannot be read. -/
  | unreadable (error : Pattern.Error)
  /-- The tree cannot be turned into an automaton. -/
  | automaton (fault : Automaton.Fault)
deriving DecidableEq

/-- The wording of a fault. -/
def Pattern.Fault.message : Pattern.Fault → String
  | unreadable error => error.message
  | automaton fault => fault.message

/-- The automaton of the tree of a pattern, epsilon edges included. -/
def Pattern.thompson (pattern : List Char) : Except Pattern.Fault Automaton := do
  let node ← (Pattern.parse pattern).mapError .unreadable
  node.compile.mapError .automaton

/-- A pattern with its smallest deterministic automaton. -/
structure Matcher where
  pattern : List Char
  automaton : Automaton
deriving DecidableEq

namespace Matcher

/-- The smallest deterministic automaton of a pattern. -/
def build (pattern : List Char) : Except Pattern.Fault Automaton := do
  let A ← Pattern.thompson pattern
  return A.minimize

/-- The matcher of a pattern. -/
def ofPattern (pattern : List Char) : Except Pattern.Fault Matcher := do
  let A ← build pattern
  return ⟨pattern, A⟩

/-- The next state for every state and label. Of two edges with both in common the later counts. -/
def table (A : Automaton) : List ((Nat × Option Char) × Nat) :=
  (A.edges.toList.map fun e => ((e.source, e.label), e.target)).reverse

/-- The state that a text leads to from a state by a table, if there is one. -/
def walk (table : List ((Nat × Option Char) × Nat)) : Nat → List Char → Option Nat
  | s, [] => some s
  | s, c :: text =>
    match table.lookup (s, some c) with
    | none => none
    | some next => walk table next text

/-- Whether the whole of a text is of the pattern. -/
def run (m : Matcher) (text : List Char) : Bool :=
  match m.automaton.starting.toList with
  | [] => false
  | start :: _ =>
    match walk (table m.automaton) start text with
    | none => false
    | some s => s ∈ m.automaton.final

/-- The matcher as text. -/
def summary (m : Matcher) : String :=
  "RegEx: " ++ String.ofList m.pattern

end Matcher

end FiniteState
