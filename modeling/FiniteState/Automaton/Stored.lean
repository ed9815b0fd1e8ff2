import FiniteState.Automaton.Construction
import FiniteState.Automaton.Subset

/-!
# Stored Automata

An automaton as it is kept: beside the edges there is the alphabet, which is not read off them but
recorded, each symbol in a second change after the edge that has brought it in. Looking a symbol up
and going through the alphabet trust what has been recorded.

A stored automaton is changed in place. Each of the three changes checks its arguments and makes its
changes after that, and what it has changed stays changed if something fails later. All else that is
done to stored automata is made of the three.

## Main definitions

* `Stored`: An automaton with its recorded alphabet.
* `Stored.Action`: Changes to a stored automaton.
* `Stored.connect`, `Stored.setStarting`, `Stored.setFinal`: The three changes.
* `Stored.mark`, `Stored.connectAll`, `Stored.connectMatrix`, `Stored.connectTable`: Marks and edges
  one after another.
* `Stored.simulation`, `Stored.accepts`: The simulation over the recorded alphabet.
* `Stored.table`, `Stored.finals`: The subset construction as a table, and its final states.
-/

namespace FiniteState

/-- An automaton with the alphabet that has been recorded beside its edges. -/
structure Stored extends Automaton where
  alphabet : Std.ExtTreeSet Char
deriving DecidableEq

namespace Stored

instance : Coe Stored Automaton := ⟨toAutomaton⟩

/-- An automaton without marks and edges, for which nothing has been recorded. -/
def blank (size : Nat) : Stored :=
  ⟨⟨size, ∅, ∅, ∅⟩, ∅⟩

instance : Inhabited Stored := ⟨blank 0⟩

/-- Changes to a stored automaton. What has been changed stays changed if something fails later. -/
abbrev Action := EStateM Automaton.Fault Stored

/-- The value of a check. -/
def checked {α : Type} : Except Automaton.Fault α → Action α
  | .ok value => return value
  | .error fault => throw fault

/-- A state of the automaton. -/
def state (s : Int) : Action Nat := do
  checked (Automaton.checkState (← get).size s)

/-- Record the symbol of a label. -/
def record (label : Option Char) : Action Unit :=
  modify fun A => { A with alphabet := label.elim A.alphabet A.alphabet.insert }

/-- Add an edge between two states. The edge comes first and its symbol after it. -/
def connect (source target : Int) (label : String) : Action Unit := do
  let s ← state source
  let t ← state target
  let l ← checked (Automaton.checkLabel label)
  modify fun A => { A with edges := A.edges.insert ⟨s, t, l⟩ }
  record l

/-- Mark a state as starting, or no longer so. -/
def setStarting (s : Int) (value : Bool) : Action Unit := do
  let s ← state s
  modify fun A =>
    { A with starting := if value then A.starting.insert s else A.starting.erase s }

/-- Mark a state as final, or no longer so. -/
def setFinal (s : Int) (value : Bool) : Action Unit := do
  let s ← state s
  modify fun A => { A with final := if value then A.final.insert s else A.final.erase s }

/-- Mark starting and final states. -/
def mark (starting final : List Int) : Action Unit := do
  starting.forM fun s => setStarting s true
  final.forM fun s => setFinal s true

/-- Add the edges of triples of source, label and target. -/
def connectAll (relation : List (Int × String × Int)) : Action Unit :=
  relation.forM fun (source, label, target) => connect source target label

/-- Add the edges of one row of a matrix, which has one entry for each target. -/
def connectRow (row : List (List String)) (source : Nat) : Action Unit := do
  let size := (← get).size
  if row.length ≠ size then
    throw (.rowLength source row.length size)
  row.zipIdx.forM fun (labels, target) => labels.forM fun label => connect source target label

/-- Add the edges of a square matrix that holds the labels between every two states. -/
def connectMatrix (rows : List (List (List String))) : Action Unit :=
  rows.zipIdx.forM fun (row, source) => connectRow row source

/-- Add the edges of one row of a table, which has one slot for each label. -/
def connectSlots (slots : List String) (row : List (List Int)) (source : Nat) : Action Unit := do
  if row.length ≠ slots.length then
    throw (.slotCount source row.length slots.length)
  (slots.zip row).forM fun (label, targets) => targets.forM fun target =>
    connect source target label

/-- Add the edges of a table with one row for each state. -/
def connectTable (slots : List String) (table : List (List (List Int))) : Action Unit :=
  table.zipIdx.forM fun (row, source) => connectSlots slots row source

/-- The simulation over the recorded alphabet. -/
def simulation (A : Stored) : Simulation where
  closures := A.closures
  moves := A.alphabet.toList.map fun c => (c, A.rows (some c))

/-- Whether the automaton accepts a word, whose symbols are looked up in the recorded alphabet. -/
def accepts (A : Stored) (word : List Char) : Bool :=
  let m := A.simulation
  m.reads A.final (m.close A.starting) word

/-- The sets of states that words lead to, in the order of discovery. -/
def subsets (A : Stored) : List StateSet :=
  A.simulation.subsets A.size A.starting

/-- The subset construction as a table. The row of a set has a slot for each symbol of the recorded
    alphabet, with the place of the set that the symbol leads to, and an empty slot for epsilon. -/
def table (A : Stored) : List (List (List Int)) :=
  let m := A.simulation
  let known := A.subsets
  known.map fun states =>
    (m.moves.map fun move =>
      let following := m.step move.2 states
      if following.isEmpty then [] else [(known.idxOf following : Int)]) ++ [[]]

/-- The places of the sets of states that hold a final one. -/
def finals (A : Stored) : List Int :=
  (A.subsets.zipIdx.filter fun entry => entry.1.meets A.final).map fun entry => (entry.2 : Int)

end Stored

end FiniteState
