import FiniteState.Automaton.Edge
import FiniteState.StateSet

/-!
# Automata

A nondeterministic finite automaton with epsilon edges. Its states are the numbers below `size`;
some of them are starting states, some are final, and edges lead between them. Everything else is
read off these parts: the alphabet is the set of symbols on the edges.

These are automata as values, which are compared by their parts. One that is kept has its alphabet
recorded beside the edges and is changed in place; for that see `Stored`.

The parts are kept as data, and `WellFormed` says what every constructor guarantees of them: all
states mentioned exist, and every label that is not epsilon is a symbol.

## Main definitions

* `Automaton`: An automaton.
* `Automaton.WellFormed`: All states exist and all labels are symbols or epsilon.
* `Automaton.alphabet`: The symbols on the edges.
* `Automaton.reverse`: Every edge turned around, starting and final states exchanged.
* `Automaton.labels`, `Automaton.matrix`: The edges as a square matrix of labels.
* `Automaton.shifted`: The edges as triples, renumbered by any integer.

## Theorems

* `Automaton.ext_edges`: Automata with equal sizes, equal marks and the same edges are equal.
* `Automaton.mem_alphabet`, `Automaton.mem_edges_addEdge`, `Automaton.mem_edges_reverse`,
  `Automaton.mem_edgesFrom`, `Automaton.mem_labels`: The members of each view.
* `Automaton.addEdge_of_mem`: An edge that is there already changes nothing.
* `Automaton.reverse_reverse`, `Automaton.alphabet_reverse`: Turning around twice changes nothing,
  and turning around keeps the alphabet.
* `Automaton.WellFormed.reverse`, `Automaton.WellFormed.addEdge`: Well-formed results.
-/

namespace FiniteState

/-- A nondeterministic finite automaton with epsilon edges over the states `0, …, size - 1`. -/
structure Automaton where
  size : Nat
  starting : StateSet
  final : StateSet
  edges : Std.ExtTreeSet Edge
deriving DecidableEq

namespace Automaton

/-- Every state mentioned exists, and every label that is not epsilon is a symbol. -/
structure WellFormed (A : Automaton) : Prop where
  starting_lt : ∀ s ∈ A.starting, s < A.size
  final_lt : ∀ s ∈ A.final, s < A.size
  source_lt : ∀ e ∈ A.edges, e.source < A.size
  target_lt : ∀ e ∈ A.edges, e.target < A.size
  isSymbol_of_label : ∀ e ∈ A.edges, ∀ c, e.label = some c → isSymbol c = true

instance (A : Automaton) : Decidable A.WellFormed :=
  decidable_of_iff
    ((∀ s ∈ A.starting.toList, s < A.size) ∧ (∀ s ∈ A.final.toList, s < A.size) ∧
      ∀ e ∈ A.edges.toList, e.source < A.size ∧ e.target < A.size ∧
        e.label.all isSymbol = true) <| by
    simp only [StateSet.mem_toList, Std.ExtTreeSet.mem_toList, Option.all_eq_true]
    constructor
    · intro h
      rcases h with ⟨hstarting, hfinal, hedges⟩
      exact ⟨hstarting, hfinal, fun e he => (hedges e he).1, fun e he => (hedges e he).2.1,
        fun e he => (hedges e he).2.2⟩
    · intro h
      exact ⟨h.starting_lt, h.final_lt, fun e he =>
        ⟨h.source_lt e he, h.target_lt e he, h.isSymbol_of_label e he⟩⟩

/-- The symbols on the edges. -/
def alphabet (A : Automaton) : Std.ExtTreeSet Char :=
  .ofList (A.edges.toList.filterMap Edge.label)

/-- The automaton with one more edge. Nothing changes if the edge is there already. -/
def addEdge (A : Automaton) (e : Edge) : Automaton :=
  { A with edges := A.edges.insert e }

/-- Turn every edge around and exchange starting and final states. -/
def reverse (A : Automaton) : Automaton where
  size := A.size
  starting := A.final
  final := A.starting
  edges := .ofList (A.edges.toList.map Edge.flip)

/-- The edges that leave a state, in ascending order. -/
def edgesFrom (A : Automaton) (s : Nat) : List Edge :=
  A.edges.toList.filter fun e => e.source == s

/-- The labels of the edges from one state to another, in ascending order. -/
def labels (A : Automaton) (s t : Nat) : List (Option Char) :=
  ((A.edgesFrom s).filter fun e => e.target == t).map Edge.label

/-- The labels between every two states, one row for each source. -/
def matrix (A : Automaton) : List (List (List (Option Char))) :=
  (List.range A.size).map fun s =>
    let row := A.edgesFrom s
    (List.range A.size).map fun t => (row.filter fun e => e.target == t).map Edge.label

/-- The order of triples by source, label and target. -/
def compareTriples (a b : Int × Option Char × Int) : Ordering :=
  (compare a.1 b.1).then ((compare a.2.1 b.2.1).then (compare a.2.2 b.2.2))

/-- The edges as triples of source, label and target in ascending order, both states renumbered by
    an offset. -/
def shifted (A : Automaton) (offset : Int) : List (Int × Option Char × Int) :=
  (A.edges.toList.map fun e => ((e.source : Int) + offset, e.label, (e.target : Int) + offset))
    |>.mergeSort fun a b => (compareTriples a b).isLE

theorem ext_edges {A B : Automaton} (hsize : A.size = B.size) (hstarting : A.starting = B.starting)
    (hfinal : A.final = B.final) (hedges : ∀ e, e ∈ A.edges ↔ e ∈ B.edges) : A = B := by
  obtain ⟨size, starting, final, edges⟩ := A
  obtain ⟨size', starting', final', edges'⟩ := B
  obtain rfl : edges = edges' := Std.ExtTreeSet.ext_mem hedges
  simp_all

theorem mem_alphabet {A : Automaton} {c : Char} :
    c ∈ A.alphabet ↔ ∃ e ∈ A.edges, e.label = some c := by
  simp [alphabet, Std.ExtTreeSet.mem_ofList]

theorem mem_edges_addEdge {A : Automaton} {e f : Edge} :
    e ∈ (A.addEdge f).edges ↔ e = f ∨ e ∈ A.edges := by
  rw [addEdge, Std.ExtTreeSet.mem_insert, Std.LawfulEqCmp.compare_eq_iff_eq, eq_comm]

theorem mem_edges_reverse {A : Automaton} {e : Edge} :
    e ∈ A.reverse.edges ↔ e.flip ∈ A.edges := by
  simp only [reverse, Edge.mem_ofList, List.mem_map, Std.ExtTreeSet.mem_toList]
  constructor
  · intro h
    rcases h with ⟨f, hf, rfl⟩
    exact hf
  · intro h
    exact ⟨e.flip, h, rfl⟩

/-- An edge that is there already changes nothing. -/
theorem addEdge_of_mem {A : Automaton} {e : Edge} (h : e ∈ A.edges) : A.addEdge e = A := by
  refine ext_edges rfl rfl rfl fun f => ?_
  rw [mem_edges_addEdge]
  refine ⟨fun hf => ?_, Or.inr⟩
  rcases hf with rfl | hf
  · exact h
  · exact hf

theorem reverse_reverse (A : Automaton) : A.reverse.reverse = A := by
  refine ext_edges rfl rfl rfl fun e => ?_
  rw [mem_edges_reverse, mem_edges_reverse, Edge.flip_flip]

/-- An edge turned around keeps its label. -/
theorem alphabet_reverse (A : Automaton) : A.reverse.alphabet = A.alphabet := by
  refine Std.ExtTreeSet.ext_mem fun c => ?_
  rw [mem_alphabet, mem_alphabet]
  constructor
  · intro h
    rcases h with ⟨e, he, hlabel⟩
    exact ⟨e.flip, mem_edges_reverse.1 he, hlabel⟩
  · intro h
    rcases h with ⟨e, he, hlabel⟩
    exact ⟨e.flip, mem_edges_reverse.2 he, hlabel⟩

theorem mem_edgesFrom {A : Automaton} {s : Nat} {e : Edge} :
    e ∈ A.edgesFrom s ↔ e ∈ A.edges ∧ e.source = s := by
  simp [edgesFrom]

theorem mem_labels {A : Automaton} {s t : Nat} {l : Option Char} :
    l ∈ A.labels s t ↔ ⟨s, t, l⟩ ∈ A.edges := by
  simp only [labels, List.mem_map, List.mem_filter, mem_edgesFrom, beq_iff_eq]
  constructor
  · intro h
    rcases h with ⟨e, ⟨⟨he, rfl⟩, rfl⟩, rfl⟩
    exact he
  · intro h
    exact ⟨_, ⟨⟨h, rfl⟩, rfl⟩, rfl⟩

theorem WellFormed.reverse {A : Automaton} (h : A.WellFormed) : A.reverse.WellFormed where
  starting_lt := h.final_lt
  final_lt := h.starting_lt
  source_lt e he := h.target_lt e.flip (mem_edges_reverse.1 he)
  target_lt e he := h.source_lt e.flip (mem_edges_reverse.1 he)
  isSymbol_of_label e he := h.isSymbol_of_label e.flip (mem_edges_reverse.1 he)

theorem WellFormed.addEdge {A : Automaton} (h : A.WellFormed) {e : Edge}
    (hsource : e.source < A.size) (htarget : e.target < A.size)
    (hlabel : ∀ c, e.label = some c → isSymbol c = true) : (A.addEdge e).WellFormed := by
  refine ⟨h.starting_lt, h.final_lt, ?_, ?_, ?_⟩ <;> intro f hf <;>
    rcases mem_edges_addEdge.1 hf with rfl | hf
  · exact hsource
  · exact h.source_lt f hf
  · exact htarget
  · exact h.target_lt f hf
  · exact hlabel
  · exact h.isSymbol_of_label f hf

theorem WellFormed.addEpsilon {A : Automaton} (h : A.WellFormed) {s t : Nat} (hs : s < A.size)
    (ht : t < A.size) : (A.addEdge (.epsilon s t)).WellFormed :=
  h.addEdge hs ht fun c hc => absurd hc (by simp [Edge.epsilon])

end Automaton

end FiniteState
