import FiniteState.Automaton.Fault
import FiniteState.Text.Integer

/-!
# Faults of Descriptions

What can be wrong with the description of an automaton, and how it is reported.

## Main definitions

* `Description.Fault`: The reasons why a description cannot be read.
* `Description.Fault.message`: The wording of each.
-/

namespace FiniteState

namespace Description

/-- The reasons why a description cannot be read. -/
inductive Fault
  /-- A name of digits has no integer value. -/
  | integer (text : List Char) (fault : Text.IntegerFault)
  /-- A label is neither a single character nor a name of epsilon. -/
  | invalidLabel (text : List Char)
  /-- A line with arrows does not have two of them. -/
  | invalidTransition (line : List Char)
  /-- A line is of no known form. -/
  | unreadableLine (line : List Char)
  /-- No line declares a pattern. -/
  | noPattern
  /-- What was read does not make an automaton. -/
  | automaton (fault : Automaton.Fault)
deriving DecidableEq

/-- The wording of a fault. -/
def Fault.message : Fault → String
  | integer text fault => fault.message text
  | invalidLabel text =>
    "Invalid symbol '" ++ String.ofList text ++ "': expected a single character"
  | invalidTransition line => "Invalid transition: " ++ String.ofList line
  | unreadableLine line => "Cannot parse line: " ++ String.ofList line
  | noPattern => "No pattern found"
  | automaton fault => fault.message

end Description

end FiniteState
