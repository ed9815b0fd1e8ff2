import FiniteState.Automaton.Closure

/-!
# Simulation

What an automaton can be in after reading a word is a set of states, closed under epsilon edges. A
simulation holds what is needed to go from one such set to the next: the epsilon closures, and for
each symbol of the alphabet the targets of the edges that carry it.

Acceptance follows a word through these sets. A symbol outside the alphabet or a set without states
settles the answer at once.

## Main definitions

* `Simulation`: The closures of an automaton, and its edges by symbol and source.
* `Simulation.close`: The epsilon closure of a set of states.
* `Simulation.step`: The set of states after one more symbol.
* `Automaton.accepts`: Whether an automaton accepts a word.
* `Automaton.isDeterministic`: Whether an automaton never has a choice.

## Theorems

* `Simulation.mem_follow`, `Simulation.mem_close`: The states that edges and closures lead to.
-/

namespace FiniteState

/-- The epsilon closures of an automaton and, for each symbol in ascending order, the targets of the
    edges with that symbol by their sources. -/
structure Simulation where
  closures : Array StateSet
  moves : List (Char × Array (List Nat))

namespace Simulation

/-- The epsilon closure of a set of states. -/
def close (m : Simulation) (states : StateSet) : StateSet :=
  states.unionOf fun s => m.closures.getD s ∅

/-- The targets of the edges that leave a set of states, where rows hold the targets of each. -/
def follow (rows : Array (List Nat)) (states : StateSet) : StateSet :=
  states.unionOf fun s => .ofList (rows.getD s [])

/-- The closed set of states that the edges lead to from a set of states. -/
def step (m : Simulation) (rows : Array (List Nat)) (states : StateSet) : StateSet :=
  m.close (follow rows states)

theorem mem_follow {rows : Array (List Nat)} {states : StateSet} {t : Nat} :
    t ∈ follow rows states ↔ ∃ s ∈ states, t ∈ rows.getD s [] := by
  simp [follow]

theorem mem_close {m : Simulation} {states : StateSet} {t : Nat} :
    t ∈ m.close states ↔ ∃ s ∈ states, t ∈ m.closures.getD s ∅ := by
  simp [close]

/-- Whether reading a word from a set of states can end in a final state. -/
def reads (m : Simulation) (final : StateSet) : StateSet → List Char → Bool
  | states, [] => states.meets final
  | states, c :: word =>
    match m.moves.lookup c with
    | none => false
    | some rows =>
      let following := m.step rows states
      if following.isEmpty then false else reads m final following word

end Simulation

namespace Automaton

/-- The simulation of an automaton. -/
def simulation (A : Automaton) : Simulation where
  closures := A.closures
  moves := A.alphabet.toList.map fun c => (c, A.rows (some c))

/-- Whether the automaton accepts a word, every possible path considered. -/
def accepts (A : Automaton) (word : List Char) : Bool :=
  let m := A.simulation
  m.reads A.final (m.close A.starting) word

/-- Whether no two of the edges share their source and their label, given the pairs seen before
    them. A pair is kept as an edge to state 0. -/
def separate (seen : Std.ExtTreeSet Edge) : List Edge → Bool
  | [] => true
  | e :: rest =>
    let pair : Edge := ⟨e.source, 0, e.label⟩
    !seen.contains pair && separate (seen.insert pair) rest

/-- Whether the automaton never has a choice: one starting state at most, no epsilon edges, and at
    most one edge for each state and symbol. -/
def isDeterministic (A : Automaton) : Bool :=
  A.starting.size ≤ 1 && A.edges.toList.all (·.label.isSome) && separate ∅ A.edges.toList

end Automaton

end FiniteState
