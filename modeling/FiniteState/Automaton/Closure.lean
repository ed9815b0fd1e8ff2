import FiniteState.Automaton.Basic
import FiniteState.Search

/-!
# Epsilon Closures

The epsilon closure of a state holds the states that epsilon edges alone lead to from it, the state
itself among them. A search with a stack finds it. Every state is pushed once at most, so as many
rounds as there are states are enough to empty the stack.

## Main definitions

* `Automaton.rows`: The targets of the edges with a label, by their sources.
* `Automaton.closures`: The epsilon closure of every state.

## Theorems

* `Automaton.mem_rows`: The row of a state holds the targets of its edges with the label.
-/

namespace FiniteState

namespace Automaton

/-- Rows of targets with an edge added to the row of its source. -/
def addTarget (e : Edge) (rows : Array (List Nat)) : Array (List Nat) :=
  rows.modify e.source (e.target :: ·)

/-- The targets of the edges with a label that leave each state, in ascending order. -/
def rows (A : Automaton) (label : Option Char) : Array (List Nat) :=
  (A.edges.toList.filter fun e => e.label == label).foldr addTarget (Array.replicate A.size [])

theorem size_foldr_addTarget (edges : List Edge) (rows : Array (List Nat)) :
    (edges.foldr addTarget rows).size = rows.size := by
  induction edges with
  | nil => rfl
  | cons e edges ih => simp [addTarget, ih]

theorem mem_foldr_addTarget {edges : List Edge} {rows : Array (List Nat)} {s t : Nat}
    (hs : s < rows.size) :
    t ∈ (edges.foldr addTarget rows).getD s [] ↔
      (∃ e ∈ edges, e.source = s ∧ e.target = t) ∨ t ∈ rows.getD s [] := by
  induction edges with
  | nil => simp
  | cons e edges ih =>
    have hsize : s < (edges.foldr addTarget rows).size := by rwa [size_foldr_addTarget]
    simp only [Array.getD_eq_getD_getElem?] at ih ⊢
    rw [List.foldr_cons, addTarget, Array.getElem?_modify]
    by_cases he : e.source = s
    · rw [if_pos he]
      rw [Array.getElem?_eq_getElem hsize, Option.getD_some] at ih
      rw [Array.getElem?_eq_getElem hsize, Option.map_some, Option.getD_some, List.mem_cons, ih]
      grind
    · rw [if_neg he, ih]
      simp [he]

theorem mem_rows {A : Automaton} {label : Option Char} {s t : Nat} (hs : s < A.size) :
    t ∈ (A.rows label).getD s [] ↔ ⟨s, t, label⟩ ∈ A.edges := by
  rw [rows, mem_foldr_addTarget (by simpa using hs)]
  simp only [List.mem_filter, Std.ExtTreeSet.mem_toList, beq_iff_eq, Array.getD_eq_getD_getElem?,
    Array.getElem?_replicate, hs, if_true, Option.getD_some, List.not_mem_nil, or_false]
  constructor
  · intro h
    rcases h with ⟨⟨s', t', l⟩, ⟨he, rfl⟩, rfl, rfl⟩
    exact he
  · intro h
    exact ⟨_, ⟨h, rfl⟩, rfl, rfl⟩

/-- The epsilon closure of every state. -/
def closures (A : Automaton) : Array StateSet :=
  let rows := A.rows none
  Array.ofFn fun s : Fin A.size =>
    Search.reach (fun t => rows.getD t []) A.size (.ofList [s.val]) [s.val]

end Automaton

end FiniteState
