import FiniteState.Automaton.Basic

/-!
# Display

Automata as text: a line for every edge, and a summary of one line.

An edge reads `*0  --a->  1*`, a star before a state marking it as starting and a star after it as
final. An epsilon edge has the arrow `--->>`.

## Main definitions

* `Automaton.dump`: A line for every edge, in ascending order.
* `Automaton.summary`: The counts and the marked states in one line.
-/

namespace FiniteState

/-- Numbers in brackets, as lists of states are shown. -/
def showStates (states : List Nat) : String :=
  "[" ++ ", ".intercalate (states.map Nat.repr) ++ "]"

namespace Automaton

/-- A state between its two marks. -/
def stateLabel (A : Automaton) (s : Nat) : String :=
  (if s ∈ A.starting then "*" else " ") ++ Nat.repr s ++ (if s ∈ A.final then "*" else " ")

/-- The arrow of an edge with a label. -/
def arrow : Option Char → String
  | none => "--->>"
  | some c => "--" ++ String.singleton c ++ "->"

/-- The line of an edge. -/
def edgeLine (A : Automaton) (e : Edge) : String :=
  A.stateLabel e.source ++ " " ++ arrow e.label ++ " " ++ A.stateLabel e.target

/-- A line for every edge, in ascending order. -/
def dump (A : Automaton) : String :=
  "\n".intercalate (A.edges.toList.map A.edgeLine)

/-- The counts and the marked states in one line. -/
def summary (A : Automaton) : String :=
  let states := A.size
  let starting := showStates A.starting.toList
  let final := showStates A.final.toList
  let edges := A.edges.size
  s!"Automaton(states={states}, starting={starting}, final={final}, transitions={edges})"

end Automaton

end FiniteState
