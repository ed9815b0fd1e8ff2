import FiniteState.Automaton.Basic
import FiniteState.Automaton.Fault

/-!
# Combination

An automaton is atomic if it has one starting and one final state, its entry and its exit. Atomic
automata are combined by epsilon edges between their entries and exits: in a row, side by side,
with a way around, or with a way back.

In a row and side by side, the members are copied one after another into one numbering, between a
new entry 0 and a new exit, which is the last state.

## Main definitions

* `Ends`: The entry and the exit of an atomic automaton.
* `Automaton.ends`: The ends of an automaton, if it is atomic.
* `Splice`: Copies of automata in one numbering.
* `Splice.enclose`: The copies between a new entry and a new exit.
* `Automaton.concatenation`, `Automaton.disjunction`: Automata in a row, and side by side.
* `Automaton.option`, `Automaton.iteration`: A way around, and a way back.

## Theorems

* `Automaton.ends_eq_ok_iff`: An automaton has ends if it has one starting and one final state.
-/

namespace FiniteState

/-- The entry and the exit of an atomic automaton. -/
structure Ends where
  entry : Nat
  exit : Nat
deriving DecidableEq

/-- The ends renumbered by an offset. -/
def Ends.shift (offset : Nat) (ends : Ends) : Ends :=
  ⟨ends.entry + offset, ends.exit + offset⟩

namespace Automaton

/-- The entry and the exit of an automaton with one starting and one final state. -/
def ends (A : Automaton) : Except Fault Ends :=
  match A.starting.toList, A.final.toList with
  | [entry], [exit] => .ok ⟨entry, exit⟩
  | starting, final => .error (.notAtomic starting.length final.length)

theorem ends_eq_ok_iff {A : Automaton} {entry exit : Nat} :
    A.ends = .ok ⟨entry, exit⟩ ↔ A.starting.toList = [entry] ∧ A.final.toList = [exit] := by
  unfold ends
  split
  next s t hs ht => simp [hs, ht]
  next h =>
    simp only [reduceCtorEq, false_iff, not_and]
    exact fun hs ht => h _ _ hs ht

end Automaton

/-- Copies of automata in one numbering, with the ends of each copy. The size counts all states up
    to the end of the last copy. -/
structure Splice where
  size : Nat
  edges : List Edge
  spans : List Ends
deriving DecidableEq

namespace Splice

/-- Copy automata with known ends one after another, the first of them at an offset. -/
def ofParts (offset : Nat) : List (Automaton × Ends) → Splice
  | [] => ⟨offset, [], []⟩
  | (A, ends) :: rest =>
    let after := ofParts (offset + A.size) rest
    { size := after.size
      edges := A.edges.toList.map (Edge.shift offset) ++ after.edges
      spans := ends.shift offset :: after.spans }

/-- Copy atomic automata one after another behind a new entry 0. -/
def ofMembers (members : List Automaton) : Except Automaton.Fault Splice := do
  let parts ← members.mapM fun A => do return (A, ← A.ends)
  return ofParts 1 parts

/-- The epsilon edges that lead from a state through spans in order and on to the exit. -/
def chain (exit : Nat) : Nat → List Ends → List Edge
  | state, [] => [.epsilon state exit]
  | state, span :: rest => .epsilon state span.entry :: chain exit span.exit rest

/-- The epsilon edges that lead from the entry 0 into every span and from there to the exit. -/
def fan (exit : Nat) (spans : List Ends) : List Edge :=
  spans.flatMap fun span => [.epsilon 0 span.entry, .epsilon span.exit exit]

/-- The automaton of the copies and a new exit after them, with linking edges. -/
def enclose (s : Splice) (links : List Edge) : Automaton where
  size := s.size + 1
  starting := .ofList [0]
  final := .ofList [s.size]
  edges := .ofList (s.edges ++ links)

end Splice

namespace Automaton

/-- Automata in a row. Without members only the empty word is accepted. -/
def concatenation (members : List Automaton) : Except Fault Automaton := do
  let s ← Splice.ofMembers members
  return s.enclose (Splice.chain s.size 0 s.spans)

/-- Automata side by side. Without members nothing is accepted. -/
def disjunction (members : List Automaton) : Except Fault Automaton := do
  let s ← Splice.ofMembers members
  return s.enclose (Splice.fan s.size s.spans)

/-- The automaton with a way around from its entry to its exit. -/
def option (A : Automaton) : Except Fault Automaton := do
  let ends ← A.ends
  return A.addEdge (.epsilon ends.entry ends.exit)

/-- The automaton with a way back from its exit to its entry. -/
def iteration (A : Automaton) : Except Fault Automaton := do
  let ends ← A.ends
  return A.addEdge (.epsilon ends.exit ends.entry)

end Automaton

end FiniteState
