import FiniteState.Proofs.Minimization
import FiniteState.Proofs.Recording
import FiniteState.Proofs.Views

/-!
# Rebuilt Automata

Copying, turning around and determinizing go through the constructors, with all their checks. What
is handed in are parts of an automaton, so nothing in them is refused: neither a state nor a symbol,
and in a table no row either, since every row has a slot for each symbol and one more.

## Theorems

* `Automaton.WellFormed.ofRelation_triples`: An automaton is built from its edges in any order.
* `Automaton.WellFormed.ofRelation_flip`: It is turned around by building it from flipped edges.
* `Stored.mem_tableTriples_table`: The triples in the table of the subset construction.
* `Automaton.WellFormed.ofTable_table`: The table builds the determinized automaton.
-/

namespace FiniteState

namespace Automaton

variable {A : Automaton}

theorem WellFormed.ofRelation_triples (hA : A.WellFormed) :
    ofRelation A.size (A.edges.toList.map Edge.triple) A.starting.numbers A.final.numbers =
      .ok A :=
  hA.given.ofRelation_eq _ _ _ (fun triple => by simp [mem_relation]) (fun _ => Iff.rfl)
    fun _ => Iff.rfl

theorem WellFormed.ofRelation_flip (hA : A.WellFormed) :
    ofRelation A.size (A.edges.toList.map fun e => e.flip.triple) A.final.numbers
      A.starting.numbers = .ok A.reverse := by
  -- The flipped triples are those of the reversed automaton, in another order.
  refine hA.reverse.given.ofRelation_eq _ _ _ (fun triple => ?_) (fun _ => Iff.rfl) fun _ => Iff.rfl
  simp only [mem_relation, mem_edges_reverse, List.mem_map, Std.ExtTreeSet.mem_toList]
  constructor
  · rintro ⟨e, he, rfl⟩
    exact ⟨e.flip, he, rfl⟩
  · rintro ⟨e, he, rfl⟩
    exact ⟨e.flip, he, rfl⟩

end Automaton

namespace Stored

open Automaton

variable {A : Stored}

/-- The slots of the table, one for each symbol. -/
def symbolSlots (A : Stored) : List String :=
  A.alphabet.toList.map String.singleton

theorem length_table (A : Stored) : A.table.length = A.subsets.length :=
  List.length_map _

/-- Every row has a slot for each symbol of the alphabet and one for epsilon. -/
theorem length_of_mem_table {row : List (List Int)} (h : row ∈ A.table) :
    row.length = (A.symbolSlots ++ [""]).length := by
  rcases List.mem_map.1 h with ⟨states, -, rfl⟩
  simp [symbolSlots, simulation]

/-- What the row of a set holds in the slot of a symbol. -/
def slot (A : Stored) (states : StateSet) (c : Char) : List Int :=
  let following := A.simulation.step (A.rows (some c)) states
  if following.isEmpty then [] else [(A.subsets.idxOf following : Int)]

theorem table_eq (A : Stored) :
    A.table = A.subsets.map fun states => A.alphabet.toList.map (A.slot states) ++ [[]] := by
  simp only [table, simulation, List.map_map]
  rfl

theorem mem_slot {states : StateSet} {c : Char} {target : Int} :
    target ∈ A.slot states c ↔ ∃ following, A.simulation.step (A.rows (some c)) states = following ∧
      following.isEmpty = false ∧ (A.subsets.idxOf following : Int) = target := by
  unfold slot
  dsimp only
  split
  next h => simp [h]
  next h => simp [h, eq_comm]

theorem mem_row {states following : StateSet} {c : Char} :
    (c, following) ∈ A.simulation.row states ↔ c ∈ A.alphabet.toList ∧
      A.simulation.step (A.rows (some c)) states = following ∧ following.isEmpty = false := by
  simp only [Simulation.row, List.mem_filter, List.mem_map, simulation, Bool.not_eq_true',
    exists_exists_and_eq_and, Prod.mk.injEq]
  constructor
  · rintro ⟨⟨d, hd, rfl, hstep⟩, hne⟩
    exact ⟨hd, hstep, hne⟩
  · rintro ⟨hc, hstep, hne⟩
    exact ⟨⟨c, hc, rfl, hstep⟩, hne⟩

/-- The table has a triple for every set, every symbol that leads to states from it, and the set of
    these. -/
theorem mem_tableTriples_table {triple : Int × String × Int} :
    triple ∈ tableTriples A.symbolSlots A.table ↔ ∃ entry ∈ A.subsets.zipIdx,
      ∃ cell ∈ A.simulation.row entry.1,
        (Edge.mk entry.2 (A.subsets.idxOf cell.2) (some cell.1)).triple = triple := by
  -- The slot of epsilon is empty, so it can be left out of a row.
  have hrow : ∀ entry : StateSet × Nat,
      ((A.symbolSlots ++ [""]).zip (A.alphabet.toList.map (A.slot entry.1) ++ [[]])).flatMap
        (fun slot => slot.2.map fun target => ((entry.2 : Int), slot.1, target)) =
      A.alphabet.toList.flatMap fun c => (A.slot entry.1 c).map fun target =>
        ((entry.2 : Int), String.singleton c, target) := by
    intro entry
    rw [List.zip_append (by simp [symbolSlots]), symbolSlots, List.zip_map', List.flatMap_append,
      List.flatMap_map]
    exact List.append_nil _
  rw [tableTriples, table_eq, List.zipIdx_map, List.flatMap_map, List.mem_flatMap]
  refine exists_congr fun entry => and_congr_right fun _ => ?_
  have htriples := congrArg (triple ∈ ·) (hrow entry)
  refine (Iff.of_eq htriples).trans ?_
  simp only [List.mem_flatMap, List.mem_map, mem_slot]
  constructor
  · rintro ⟨c, hc, target, ⟨following, hstep, hne, rfl⟩, rfl⟩
    exact ⟨(c, following), mem_row.2 ⟨hc, hstep, hne⟩, rfl⟩
  · rintro ⟨⟨c, following⟩, hmem, rfl⟩
    rcases mem_row.1 hmem with ⟨hc, hstep, hne⟩
    exact ⟨c, hc, _, ⟨following, hstep, hne, rfl⟩, rfl⟩

end Stored

namespace Automaton

variable {A : Automaton}

/-- The table of the subset construction builds the determinized automaton, and no row of it is too
    short or too long. -/
theorem WellFormed.ofTable_table (hA : A.WellFormed) :
    ofTable (Stored.of A).symbolSlots (Stored.of A).table [0] (Stored.of A).finals =
      .ok A.determinize := by
  rw [ofTable_eq fun row hrow => Stored.length_of_mem_table hrow, Stored.length_table]
  -- The slots list the same triples as the construction, and constructors agree on the same
  -- triples.
  refine hA.determinize.given.ofRelation_eq _ _ _ (fun triple => ?_) (fun s => ?_) fun s => ?_
  · rw [Stored.mem_tableTriples_table, mem_relation]
    simp only [Automaton.determinize, Edge.mem_ofList, List.mem_flatMap, List.mem_map]
    constructor
    · rintro ⟨entry, hentry, cell, hcell, rfl⟩
      exact ⟨_, ⟨entry, hentry, cell, hcell, rfl⟩, rfl⟩
    · rintro ⟨e, ⟨entry, hentry, cell, hcell, rfl⟩, rfl⟩
      exact ⟨entry, hentry, cell, hcell, rfl⟩
  · simp [mem_numbers, Automaton.determinize, eq_comm]
  · simp only [mem_numbers, Stored.finals, Automaton.determinize, List.mem_map, StateSet.mem_ofList]
    constructor
    · rintro ⟨entry, hentry, rfl⟩
      exact ⟨entry.2, ⟨entry, hentry, rfl⟩, rfl⟩
    · rintro ⟨-, ⟨entry, hentry, rfl⟩, rfl⟩
      exact ⟨entry, hentry, rfl⟩

end Automaton

end FiniteState
