import FiniteState.Automaton.Combination
import FiniteState.Automaton.Stored

/-!
# Stores

Automata have an identity. A store holds them in cells, and whoever uses one refers to it by its
address, so that two names may refer to one automaton, and a change made under the first is then
seen under the second. Cells are only added. A new automaton gets a cell at the end, before its
marks and its edges are made, so one whose making fails is left behind as it is, with no address
that refers to it.

All operations that make automata are made of three steps: a blank automaton gets a cell, a cell is
read, and the automaton in a cell is changed in place. A copy, in particular, is an automaton that
is built once more, through all checks, from what is read.

## Main definitions

* `Store`, `Address`: Automata in cells, and where they are.
* `Store.Action`: What is done to a store.
* `Store.allocate`, `Store.read`, `Store.edit`: The three steps.
* `Store.create`, `Store.ofRelation`, `Store.ofMatrix`, `Store.ofTable`: New automata from outside
  data.
* `Store.rebuild`, `Store.copy`, `Store.reverse`, `Store.determinize`, `Store.minimize`: New
  automata from one.
* `Store.concatenation`, `Store.disjunction`, `Store.option`, `Store.iteration`: Combinations.
* `Store.restore`: The store with the cells of an earlier one.
-/

namespace FiniteState

/-- Where an automaton is in a store. -/
structure Address where
  index : Nat
deriving DecidableEq

/-- Automata in cells. -/
structure Store where
  cells : Array Stored
deriving DecidableEq

namespace Store

instance : EmptyCollection Store := ⟨⟨#[]⟩⟩

/-- The number of cells. -/
def size (store : Store) : Nat :=
  store.cells.size

/-- The automaton at an address. -/
def cell (store : Store) (a : Address) : Stored :=
  store.cells.getD a.index default

/-- The store with another automaton at an address. -/
def put (store : Store) (a : Address) (A : Stored) : Store :=
  ⟨store.cells.setIfInBounds a.index A⟩

/-- The store with one more automaton. -/
def push (store : Store) (A : Stored) : Store :=
  ⟨store.cells.push A⟩

/-- The store with as many cells as an earlier one. The automata that have come since are given up,
    and whatever else has been changed stays changed. -/
def restore (store earlier : Store) : Store :=
  ⟨store.cells.take earlier.size⟩

/-- What is done to a store. What has been changed stays changed if something fails later. -/
abbrev Action := EStateM Automaton.Fault Store

/-- Give a new automaton a cell. -/
def allocate (A : Stored) : Action Address :=
  modifyGet fun store => (⟨store.size⟩, store.push A)

/-- The automaton at an address. -/
def read (a : Address) : Action Stored := do
  return (← get).cell a

/-- Change the automaton at an address in place. -/
def edit (a : Address) (change : Stored.Action Unit) : Action Unit := fun store =>
  match change (store.cell a) with
  | .ok value A => .ok value (store.put a A)
  | .error fault A => .error fault (store.put a A)

/-! ### Outside data -/

/-- An automaton with the given number of states, some of them marked, and no edges. -/
def create (count : Int) (starting final : List Int) : Action Address := do
  if count < 0 then
    throw (.negativeCount count)
  let a ← allocate (.blank count.toNat)
  edit a (Stored.mark starting final)
  return a

/-- An automaton from triples of source, label and target. -/
def ofRelation (count : Int) (relation : List (Int × String × Int)) (starting final : List Int) :
    Action Address := do
  let a ← create count starting final
  edit a (Stored.connectAll relation)
  return a

/-- An automaton from a square matrix that holds the labels between every two states. -/
def ofMatrix (rows : List (List (List String))) (starting final : List Int) : Action Address := do
  let a ← create rows.length starting final
  edit a (Stored.connectMatrix rows)
  return a

/-- An automaton from a table with one row for each state, over an alphabet. -/
def ofTable (alphabet : List String) (table : List (List (List Int))) (starting final : List Int) :
    Action Address := do
  let a ← create table.length starting final
  edit a (Stored.connectTable (alphabet ++ [""]) table)
  return a

/-! ### One automaton -/

/-- An automaton built from its parts. -/
def rebuild (A : Automaton) : Action Address :=
  ofRelation A.size (A.edges.toList.map Edge.triple) A.starting.numbers A.final.numbers

/-- The automaton built once more. -/
def copy (a : Address) : Action Address := do
  let A ← read a
  rebuild A

/-- The automaton with every edge turned around, and starting and final states exchanged. -/
def reverse (a : Address) : Action Address := do
  let A ← read a
  ofRelation A.size (A.edges.toList.map fun e => e.flip.triple) A.final.numbers A.starting.numbers

/-- The subset construction, over the recorded alphabet. State 0 is the only starting state. -/
def determinize (a : Address) : Action Address := do
  let A ← read a
  ofTable (A.alphabet.toList.map String.singleton) A.table [0] A.finals

/-- The smallest deterministic automaton, by turning around and determinizing twice. -/
def minimize (a : Address) : Action Address := do
  let reversed ← reverse a
  let codeterminized ← determinize reversed
  let turned ← reverse codeterminized
  determinize turned

/-! ### Combinations -/

/-- The entry and the exit of an automaton with one starting and one final state. -/
def ends (a : Address) : Action Ends := do
  match (← read a).ends with
  | .ok ends => return ends
  | .error fault => throw fault

/-- Copy automata one after another into another one, the first of them at an offset. The ends of
    the copies are returned. -/
def copyInto (result : Address) : Nat → List Address → Action (List Ends)
  | _, [] => return []
  | offset, a :: rest => do
    let A ← read a
    edit result (Stored.connectAll (A.edges.toList.map fun e => (e.shift offset).triple))
    let span ← ends a
    let spans ← copyInto result (offset + A.size) rest
    return span.shift offset :: spans

/-- A new automaton with copies of automata between a new entry 0 and a new exit, which is the last
    state. The ends of the copies are returned with its address. -/
def splice (members : List Address) : Action (Address × List Ends) := do
  let _ ← members.mapM ends
  let sizes ← members.mapM fun a => return (← read a).size
  let exit := sizes.foldl (· + ·) 1
  let result ← create ((exit + 1 : Nat) : Int) [0] [(exit : Int)]
  let spans ← copyInto result 1 members
  return (result, spans)

/-- Automata in a row. -/
def concatenation (members : List Address) : Action Address := do
  let (result, spans) ← splice members
  let exit := (← read result).size - 1
  edit result (Stored.connectAll ((Splice.chain exit 0 spans).map Edge.triple))
  return result

/-- Automata side by side. -/
def disjunction (members : List Address) : Action Address := do
  let (result, spans) ← splice members
  let exit := (← read result).size - 1
  edit result (Stored.connectAll ((Splice.fan exit spans).map Edge.triple))
  return result

/-- A copy of an automaton with one more epsilon edge between its ends. -/
def linked (a : Address) (link : Ends → Edge) : Action Address := do
  let span ← ends a
  let result ← copy a
  edit result (Stored.connectAll [(link span).triple])
  return result

/-- The automaton with a way around from its entry to its exit. -/
def option (a : Address) : Action Address :=
  linked a fun span => .epsilon span.entry span.exit

/-- The automaton with a way back from its exit to its entry. -/
def iteration (a : Address) : Action Address :=
  linked a fun span => .epsilon span.exit span.entry

end Store

end FiniteState
