import FiniteState.Automaton.Construction
import FiniteState.Description.Declaration
import FiniteState.Description.StateName

/-!
# Descriptions of Automata

An automaton is described by lines, in any order:

* `states: q0 q1 q2` names states; a single number names that many, counting from 0;
* `start: q0` and `accept: q2` name states and mark them;
* `q0 -> a -> q1`, or `q0 a q1`, is an edge, and `eps`, `epsilon` or `ε` is the label of an epsilon
  edge in any letter case.

Every name that occurs is a state. The states are numbered in the order of their names.

As with names, the limit on the digits of numbers is a parameter. What the lines say is gathered
before anything is made of it, in sets; `Inventory` lists the members of these sets, so that it can
be asked whether the order in which they are listed matters.

## Main definitions

* `readLabel`: The label of an edge.
* `Statement`, `readStatement`: What a line says.
* `Inventory`: What statements say, taken together.
* `Description`: An automaton with the names of its states.
* `Description.readWithin`, `Description.read`: The automaton of a description, with any limit and
  with that of descriptions.
-/

namespace FiniteState

/-- An automaton with the names of its states, in the order of their numbers. -/
structure Description where
  automaton : Automaton
  names : List (List Char)
deriving DecidableEq

namespace Description

/-- The names of epsilon. -/
def epsilonNames : List String :=
  ["eps", "epsilon", "ε"]

/-- The label of an edge: nothing for a name of epsilon in any letter case, else a character. -/
def readLabel (text : List Char) : Except Fault (Option Char) :=
  if Text.lower text ∈ epsilonNames.map String.toList then .ok none
  else match text with
    | [c] => .ok (some c)
    | _ => .error (.invalidLabel text)

/-- What a line says. -/
inductive Statement
  | states (names : List (List Char))
  | starting (names : List (List Char))
  | accepting (names : List (List Char))
  | edge (source : List Char) (label : Option Char) (target : List Char)
deriving DecidableEq

/-- The names of a number of states. -/
def countedNames (count : Nat) : List (List Char) :=
  (List.range count).map fun s => Nat.toDigits 10 s

/-- The states that a line names. A single name of digits counts them. -/
def readStates (limit : Nat) (names : List (List Char)) : Except Fault (List (List Char)) :=
  match names with
  | [name] => if Text.isDigits name then (nameValue limit name).map countedNames else .ok names
  | _ => .ok names

/-- The words of a line after a keyword, if it begins with that. -/
def wordsAfter? (keyword : String) (line : List Char) : Option (List (List Char)) :=
  if keyword.toList.isPrefixOf line then
    some (Text.words (line.drop keyword.toList.length))
  else none

/-- Whether a text holds an arrow. -/
def hasArrow (line : List Char) : Bool :=
  (Text.cutAt ['-', '>'] line).length ≠ 1

/-- The edge that a line describes, with arrows or in three words. -/
def readEdge (line : List Char) : Except Fault Statement :=
  if hasArrow line then
    match (Text.cutAt ['-', '>'] line).map Text.trim with
    | [source, label, target] => do return .edge source (← readLabel label) target
    | _ => .error (.invalidTransition line)
  else
    match Text.words line with
    | [source, label, target] => do return .edge source (← readLabel label) target
    | _ => .error (.unreadableLine line)

/-- What a line says. -/
def readStatement (limit : Nat) (line : List Char) : Except Fault Statement :=
  match wordsAfter? "states:" line with
  | some names => do return .states (← readStates limit names)
  | none =>
    match wordsAfter? "start:" line with
    | some names => .ok (.starting names)
    | none =>
      match wordsAfter? "accept:" line with
      | some names => .ok (.accepting names)
      | none => readEdge line

namespace Statement

/-- The names that occur in a statement. -/
def names : Statement → List (List Char)
  | states names => names
  | starting names => names
  | accepting names => names
  | edge source _ target => [source, target]

/-- The names of the states that a statement marks as starting. -/
def startingNames : Statement → List (List Char)
  | starting names => names
  | _ => []

/-- The names of the states that a statement marks as final. -/
def acceptingNames : Statement → List (List Char)
  | accepting names => names
  | _ => []

/-- The edge that a statement describes. -/
def edge? : Statement → Option (List Char × Option Char × List Char)
  | edge source label target => some (source, label, target)
  | _ => none

end Statement

/-- What statements say, taken together: the names that occur, those of the marked states, and the
    edges. -/
structure Inventory where
  names : List (List Char)
  starting : List (List Char)
  accepting : List (List Char)
  edges : List (List Char × Option Char × List Char)

namespace Inventory

/-- What statements say. Every name is listed once. -/
def ofStatements (statements : List Statement) : Inventory where
  names := (Std.ExtTreeSet.ofList (statements.flatMap Statement.names)).toList
  starting := statements.flatMap Statement.startingNames
  accepting := statements.flatMap Statement.acceptingNames
  edges := statements.filterMap Statement.edge?

/-- The automaton with these states, marks and edges. -/
def assemble (limit : Nat) (inventory : Inventory) : Except Fault Description := do
  let names ← sortNames limit inventory.names
  let number (name : List Char) : Int := names.idxOf name
  let relation := inventory.edges.map fun (source, label, target) =>
    (number source, String.ofList label.toList, number target)
  let A ← (Automaton.ofRelation names.length relation (inventory.starting.map number)
    (inventory.accepting.map number)).mapError .automaton
  return ⟨A, names⟩

end Inventory

/-- The automaton of a description, where numbers may have as many digits as the limit allows. -/
def readWithin (limit : Nat) (content : List Char) : Except Fault Description := do
  let statements ← (significantLines content).mapM (readStatement limit)
  (Inventory.ofStatements statements).assemble limit

/-- The automaton of a description. -/
def read (content : List Char) : Except Fault Description :=
  readWithin Text.maxDigits content

end Description

end FiniteState
