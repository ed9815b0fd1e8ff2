import FiniteState.Automaton.Simulation
import FiniteState.Search

/-!
# Subset Construction

The deterministic automaton whose states are the sets of states that an automaton can be in. The
sets are discovered breadth first, beginning with the closed set of starting states, and for each
set the symbols are tried in ascending order. A set is numbered by its place in the order of
discovery. The set without states is left out, unless it is the first.

Turning around, determinizing, and doing both again yields the smallest deterministic automaton.

## Main definitions

* `Simulation.row`: The sets of states that symbols lead to from a set.
* `Simulation.subsets`, `Automaton.subsets`: The sets of states that words lead to, in the order of
  discovery.
* `Automaton.determinize`: The subset construction.
* `Automaton.minimize`: The smallest deterministic automaton.
-/

namespace FiniteState

/-- The sets of states that the symbols lead to from a set, sets without states left out. -/
def Simulation.row (m : Simulation) (states : StateSet) : List (Char × StateSet) :=
  (m.moves.map fun move => (move.1, m.step move.2 states)).filter fun cell => !cell.2.isEmpty

/-- The sets of states that words lead to from a set, in the order of discovery. There are no more
    of them than sets of states. -/
def Simulation.subsets (m : Simulation) (size : Nat) (starting : StateSet) : List StateSet :=
  Search.discover (fun states => (m.row states).map Prod.snd) (1 <<< size) 0 [m.close starting]

namespace Automaton

/-- The sets of states that words lead to, in the order of discovery. -/
def subsets (A : Automaton) : List StateSet :=
  A.simulation.subsets A.size A.starting

/-- The subset construction. State 0 is the only starting state. -/
def determinize (A : Automaton) : Automaton :=
  let m := A.simulation
  let known := A.subsets
  { size := known.length
    starting := .ofList [0]
    final := .ofList ((known.zipIdx.filter fun entry => entry.1.meets A.final).map Prod.snd)
    edges := .ofList (known.zipIdx.flatMap fun entry =>
      (m.row entry.1).map fun cell => Edge.mk entry.2 (known.idxOf cell.2) (some cell.1)) }

/-- The smallest deterministic automaton for the accepted words, by turning around and
    determinizing twice. -/
def minimize (A : Automaton) : Automaton :=
  A.reverse.determinize.reverse.determinize

end Automaton

end FiniteState
