import FiniteState.Text.Quoted

/-!
# Faults of Automata

What can be wrong with the arguments of an operation on automata, and how it is reported.

## Main definitions

* `Automaton.Fault`: The reasons why an operation refuses its arguments.
* `Automaton.Fault.message`: The wording of each.
-/

namespace FiniteState

namespace Automaton

/-- The reasons why an operation on automata refuses its arguments. -/
inductive Fault
  /-- The number of states is negative. -/
  | negativeCount (count : Int)
  /-- A state does not exist in an automaton with `size` states. -/
  | missingState (state : Int) (size : Nat)
  /-- A label is neither empty nor a symbol. -/
  | invalidSymbol (label : String)
  /-- A row of a matrix does not have one entry for each state. -/
  | rowLength (row found expected : Nat)
  /-- A state does not have one slot for each symbol and one for epsilon. -/
  | slotCount (state found expected : Nat)
  /-- An automaton does not have exactly one starting and one final state. -/
  | notAtomic (starting final : Nat)
  /-- A leaf of a tree has no character. -/
  | missingCharacter
deriving DecidableEq

/-- The wording of a fault. -/
def Fault.message : Fault → String
  | negativeCount count => s!"Invalid state count: {count}"
  | missingState state size => s!"Invalid state {state} for automaton with {size} states"
  | invalidSymbol label => "Invalid symbol: " ++ Text.quoted label
  | rowLength row found expected =>
    s!"Transition row {row} has {found} entries, expected {expected}"
  | slotCount state found expected =>
    s!"State {state} has {found} symbol slots, expected {expected}"
  | notAtomic starting final =>
    s!"Automaton is not atomic: {starting} starting and {final} final states"
  | missingCharacter => "'NoneType' object is not iterable"

end Automaton

end FiniteState
