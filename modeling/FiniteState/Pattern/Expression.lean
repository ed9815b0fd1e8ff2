import FiniteState.Pattern.Matcher
import FiniteState.Store

/-!
# Regular Expressions as Objects

A regular expression refers to an automaton of its own, in a store. The table of edges and the state
in which a walk begins are taken from that automaton once, when it has been made; whether the walk
ends in a final state is looked up when it has ended.

The automaton of a tree is made in the store, those of its children before it. If a leaf has a
character that is no symbol, what has been made until then is left behind.

## Main definitions

* `Regex.construct`: Making the automaton of a tree.
* `Pattern.construct`: Making the automaton of the tree of a pattern.
* `Expression`: A regular expression.
* `Expression.ofPattern`: The regular expression of a pattern.
* `Expression.run`: Whether a text is of the pattern.
-/

namespace FiniteState

namespace Regex

/-- Two states, with edges from the first to the second. -/
def constructLeaf (edges : Stored.Action Unit) : Store.Action Address := do
  let a ← Store.create 2 [0] [1]
  Store.edit a edges
  return a

/-- Add an edge from state 0 to state 1 for each character. -/
def connectCharacters (characters : List Char) : Stored.Action Unit :=
  Stored.connectAll (characters.map fun c => (0, String.singleton c, 1))

mutual

/-- Make the automaton of a tree. -/
def construct : Regex → Store.Action Address
  | character symbols => constructLeaf (connectCharacters symbols)
  | characterSet ranges =>
    constructLeaf (ranges.forM fun range => connectCharacters (charactersBetween range.1 range.2))
  | wildcard => constructLeaf (connectCharacters symbols)
  | missing => constructLeaf (throw .missingCharacter)
  | concatenation parts => do Store.concatenation (← constructAll parts)
  | alternation branches => do Store.disjunction (← constructAll branches)
  | iteration body => do Store.iteration (← construct body)
  | optional body => do Store.option (← construct body)

/-- Make the automata of trees, from left to right. -/
def constructAll : List Regex → Store.Action (List Address)
  | [] => return []
  | node :: rest => do
    let a ← construct node
    let others ← constructAll rest
    return a :: others

end

end Regex

namespace Pattern

/-- What is done to a store for a pattern. -/
abbrev Action := EStateM Fault Store

/-- Make the automaton of the tree of a pattern, epsilon edges included. -/
def construct (pattern : List Char) : Action Address := do
  match parse pattern with
  | .ok node => EStateM.adaptExcept .automaton node.construct
  | .error error => throw (.unreadable error)

/-- Make the smallest deterministic automaton of a pattern. -/
def build (pattern : List Char) : Action Address := do
  let a ← construct pattern
  EStateM.adaptExcept .automaton (Store.minimize a)

end Pattern

/-- A pattern with the address of its smallest deterministic automaton, and the state to begin in
    and the edges that it had when it was made. -/
structure Expression where
  pattern : List Char
  automaton : Address
  start : Option Nat
  table : List ((Nat × Option Char) × Nat)
deriving DecidableEq

namespace Expression

/-- The regular expression of a pattern. -/
def ofPattern (pattern : List Char) : Pattern.Action Expression := do
  let a ← Pattern.build pattern
  let A := (← get).cell a
  return ⟨pattern, a, A.starting.toList.head?, Matcher.table A⟩

/-- Whether the whole of a text is of the pattern. -/
def run (e : Expression) (store : Store) (text : List Char) : Bool :=
  match e.start with
  | none => false
  | some start =>
    match Matcher.walk e.table start text with
    | none => false
    | some s => s ∈ (store.cell e.automaton).final

end Expression

end FiniteState
