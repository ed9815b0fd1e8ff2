import Mathlib
import FiniteState.Proofs.Determinization
import FiniteState.Proofs.Thompson

/-!
# Combinations of Atomic Automata

What the combinations promise of every atomic automaton, not only of those that trees are compiled
to. Nothing is known of a member but that it has one starting and one final state. Edges may enter
its entry and leave its exit, both may be one state, states may be numbered in any order, and a
member may occur several times.

Automata in a row and side by side are kept apart by a new entry and a new exit, so they accept the
words that their names promise. So does a way back: it is taken from the exit, where an accepted
word has been read, to the entry, where the next one begins, and a second way back is the first.

A way around promises less. It may be taken where a path comes back to the entry, and again where
one has left the exit and come to the entry. The words that are accepted because of it are given
exactly. There are none but the empty word if no edge enters the entry and no edge leaves the exit,
and that is when a way around may be used as an option.

An automaton that is not atomic cannot be combined. The first such member is reported by the numbers
of its starting and final states.

## Main definitions

* `Automaton.HasEnds`: The one starting state and the one final state of an automaton.
* `Automaton.Atomic`: An automaton has one starting and one final state.
* `Automaton.Joins`: An automaton has room for its members between a new entry and a new exit.

## Theorems

* `Automaton.ends_eq_ok_iff_hasEnds`, `Automaton.ends_eq_error`: When there are ends, and what is
  reported if not.
* `mem_listProd_iff`, `mem_listSum_iff`: The words of a product and of a union of languages.
* `Automaton.joins_concatenation`, `Automaton.joins_disjunction`: The ends and the size of a result.
* `Automaton.concatenation_accepts_iff`, `Automaton.disjunction_accepts_iff`: Automata in a row
  accept a word of each in order, automata side by side the words of any.
* `Automaton.combination_eq_error`: The first member that is not atomic is reported.
* `Automaton.joined_accepts_iff`: All this of any list of members.
* `Automaton.iteration_accepts_iff`: With a way back, the words made of one or more are accepted.
* `Automaton.option_accepts_iff`: The words that a way around adds.
-/

namespace FiniteState

open scoped Computability

/-! ### Words of products and unions -/

section Languages

variable {languages : List (Language Char)} {l : Language Char} {word : List Char}

/-- The words of a product are made of a word of each language in order. -/
theorem mem_listProd_iff :
    word ∈ languages.prod ↔ ∃ pieces : List (List Char), word = pieces.flatten ∧
      List.Forall₂ (fun language piece => piece ∈ language) languages pieces := by
  induction languages generalizing word with
  | nil => simp [Language.mem_one]
  | cons language languages ih =>
    simp only [List.prod_cons, Language.mem_mul, ih, List.forall₂_cons_left_iff]
    -- The first piece is of the first language, and the rest of the product of the others.
    constructor
    · intro h
      rcases h with ⟨first, hfirst, _, ⟨rest, rfl, hrest⟩, rfl⟩
      exact ⟨first :: rest, rfl, first, rest, hfirst, hrest, rfl⟩
    · intro h
      rcases h with ⟨_, rfl, first, rest, hfirst, hrest, rfl⟩
      exact ⟨first, hfirst, rest.flatten, ⟨rest, rfl, hrest⟩, rfl⟩

/-- The words of a union are the words of any of the languages. -/
theorem mem_listSum_iff : word ∈ languages.sum ↔ ∃ language ∈ languages, word ∈ language := by
  induction languages with
  | nil =>
    simp only [List.sum_nil, List.not_mem_nil, false_and, exists_false, iff_false]
    exact Language.notMem_zero word
  | cons language languages ih =>
    rw [List.sum_cons, Language.mem_add, ih]
    simp only [List.mem_cons, exists_eq_or_imp]

/-- A word and any number of words more are at least one. -/
theorem mem_mul_kstar_iff :
    word ∈ l * l∗ ↔ ∃ pieces : List (List Char), pieces ≠ [] ∧ word = pieces.flatten ∧
      ∀ piece ∈ pieces, piece ∈ l := by
  simp only [Language.mem_mul, Language.mem_kstar]
  constructor
  · intro h
    rcases h with ⟨first, hfirst, _, ⟨rest, rfl, hrest⟩, rfl⟩
    exact ⟨first :: rest, List.cons_ne_nil first rest, rfl, List.forall_mem_cons.2 ⟨hfirst, hrest⟩⟩
  · intro h
    rcases h with ⟨pieces, hne, rfl, hpieces⟩
    rcases List.exists_cons_of_ne_nil hne with ⟨first, rest, rfl⟩
    rcases List.forall_mem_cons.1 hpieces with ⟨hfirst, hrest⟩
    exact ⟨first, hfirst, rest.flatten, ⟨rest, rfl, hrest⟩, rfl⟩

end Languages

/-- Copies take up as many states as the automata have together. -/
theorem Splice.size_ofParts (offset : Nat) (parts : List (Automaton × Ends)) :
    (ofParts offset parts).size = offset + (parts.map fun part => part.1.size).sum := by
  induction parts generalizing offset with
  | nil => rfl
  | cons part rest ih => rw [ofParts, ih, List.map_cons, List.sum_cons, Nat.add_assoc]

namespace Automaton

/-! ### Atomic automata -/

/-- One state, the entry, is the only starting state, and one, the exit, the only final state. -/
structure HasEnds (A : Automaton) (entry exit : Nat) : Prop where
  starting_eq : A.starting = .ofList [entry]
  final_eq : A.final = .ofList [exit]

/-- An automaton has one starting and one final state. -/
def Atomic (A : Automaton) : Prop :=
  ∃ entry exit, A.HasEnds entry exit

variable {A B : Automaton} {members : List Automaton} {word : List Char} {entry exit : Nat}

theorem ends_eq_ok_iff_hasEnds : A.ends = .ok ⟨entry, exit⟩ ↔ A.HasEnds entry exit := by
  rw [ends_eq_ok_iff, StateSet.toList_eq_singleton_iff, StateSet.toList_eq_singleton_iff]
  exact ⟨fun h => ⟨h.1, h.2⟩, fun h => ⟨h.starting_eq, h.final_eq⟩⟩

theorem atomic_iff : A.Atomic ↔ ∃ ends, A.ends = .ok ends := by
  constructor
  · intro h
    rcases h with ⟨entry, exit, h⟩
    exact ⟨_, ends_eq_ok_iff_hasEnds.2 h⟩
  · intro h
    rcases h with ⟨⟨entry, exit⟩, h⟩
    exact ⟨entry, exit, ends_eq_ok_iff_hasEnds.1 h⟩

instance (A : Automaton) : Decidable A.Atomic :=
  decidable_of_iff (A.starting.size = 1 ∧ A.final.size = 1) <| by
    simp only [StateSet.size, List.length_eq_one_iff, StateSet.toList_eq_singleton_iff]
    constructor
    · intro h
      rcases h with ⟨⟨entry, hentry⟩, exit, hexit⟩
      exact ⟨entry, exit, hentry, hexit⟩
    · intro h
      rcases h with ⟨entry, exit, h⟩
      exact ⟨⟨entry, h.starting_eq⟩, exit, h.final_eq⟩

/-- An automaton that is not atomic is reported by its numbers of starting and final states. -/
theorem ends_eq_error (h : ¬ A.Atomic) :
    A.ends = .error (.notAtomic A.starting.size A.final.size) := by
  unfold ends
  split
  next entry exit hentry hexit =>
    have hends : A.HasEnds entry exit :=
      ⟨StateSet.toList_eq_singleton_iff.1 hentry, StateSet.toList_eq_singleton_iff.1 hexit⟩
    exact absurd ⟨entry, exit, hends⟩ h
  next => rfl

/-! ### In a row and side by side -/

/-- An automaton leads from state 0 to its last state, and has these two states more than its
    members have together. -/
structure Joins (members : List Automaton) (B : Automaton) : Prop where
  hasEnds : B.HasEnds 0 (B.size - 1)
  size_eq : B.size = 2 + (members.map size).sum

theorem joins_enclose (parts : List (Automaton × Ends)) (links : List Edge) :
    Joins (parts.map Prod.fst) ((Splice.ofParts 1 parts).enclose links) := by
  refine ⟨⟨rfl, rfl⟩, ?_⟩
  have hsize := Splice.size_ofParts 1 parts
  simp only [Splice.enclose, List.map_map, Function.comp_def]
  omega

theorem joins_concatenation (h : concatenation members = .ok B) : Joins members B := by
  rcases concatenation_eq_ok_iff.1 h with ⟨parts, rfl, -, rfl⟩
  exact joins_enclose parts _

theorem joins_disjunction (h : disjunction members = .ok B) : Joins members B := by
  rcases disjunction_eq_ok_iff.1 h with ⟨parts, rfl, -, rfl⟩
  exact joins_enclose parts _

/-- What well-formed automata accept is their language. -/
theorem map_language_eq (hmembers : ∀ A ∈ members, A.WellFormed) :
    members.map language = members.map accepted :=
  List.map_congr_left fun A hA => (accepted_eq_language (hmembers A hA)).symm

/-- Automata in a row accept the words that can be cut into a word of each in order. -/
theorem concatenation_accepts_iff (hmembers : ∀ A ∈ members, A.WellFormed)
    (h : concatenation members = .ok B) :
    B.accepts word = true ↔ ∃ pieces : List (List Char), word = pieces.flatten ∧
      List.Forall₂ (fun A piece => A.accepts piece = true) members pieces := by
  -- The copies keep to themselves, so the language of the row is the product of languages.
  rw [accepts_eq_true_iff (gated_concatenation hmembers h).wellFormed,
    language_concatenation hmembers h, map_language_eq hmembers, mem_listProd_iff]
  simp only [List.forall₂_map_left_iff]
  rfl

/-- Automata side by side accept the words of any of them. -/
theorem disjunction_accepts_iff (hmembers : ∀ A ∈ members, A.WellFormed)
    (h : disjunction members = .ok B) :
    B.accepts word = true ↔ ∃ A ∈ members, A.accepts word = true := by
  rw [accepts_eq_true_iff (gated_disjunction hmembers h).wellFormed,
    language_disjunction hmembers h, map_language_eq hmembers, mem_listSum_iff]
  simp only [List.mem_map, exists_exists_and_eq_and]
  rfl

/-- Neither combination is made if a member is not atomic, and the first such member is reported. -/
theorem combination_eq_error {before after : List Automaton} (hbefore : ∀ B ∈ before, B.Atomic)
    (hA : ¬ A.Atomic) :
    concatenation (before ++ A :: after) = .error (.notAtomic A.starting.size A.final.size) ∧
      disjunction (before ++ A :: after) = .error (.notAtomic A.starting.size A.final.size) := by
  have hfault : Splice.ofMembers (before ++ A :: after) =
      .error (.notAtomic A.starting.size A.final.size) :=
    Splice.ofMembers_eq_error (fun B hB => atomic_iff.1 (hbefore B hB)) (ends_eq_error hA)
  rw [concatenation, disjunction, hfault]
  exact ⟨rfl, rfl⟩

/-- Atomic automata can be joined in a row and side by side. In a row they accept the words that can
    be cut into a word of each in order, and side by side the words of any of them. Both results are
    atomic from state 0 to the last state. If a member is not atomic, neither is done, and the first
    such member is reported. -/
theorem joined_accepts_iff (hmembers : ∀ A ∈ members, A.WellFormed) :
    ((∀ A ∈ members, A.Atomic) → ∃ row side,
      concatenation members = .ok row ∧ Joins members row ∧
      (∀ word, row.accepts word = true ↔ ∃ pieces : List (List Char), word = pieces.flatten ∧
        List.Forall₂ (fun A piece => A.accepts piece = true) members pieces) ∧
      disjunction members = .ok side ∧ Joins members side ∧
      ∀ word, side.accepts word = true ↔ ∃ A ∈ members, A.accepts word = true) ∧
    ∀ before A after, members = before ++ A :: after → (∀ B ∈ before, B.Atomic) → ¬ A.Atomic →
      concatenation members = .error (.notAtomic A.starting.size A.final.size) ∧
      disjunction members = .error (.notAtomic A.starting.size A.final.size) := by
  constructor
  · intro hatomic
    rcases exists_combination fun A hA => atomic_iff.1 (hatomic A hA) with
      ⟨⟨row, hrow⟩, side, hside⟩
    exact ⟨row, side, hrow, joins_concatenation hrow,
      fun _ => concatenation_accepts_iff hmembers hrow, hside, joins_disjunction hside,
      fun _ => disjunction_accepts_iff hmembers hside⟩
  · intro before A after hsplit hbefore hA
    -- Both look at the ends of all members first, in order.
    rw [hsplit]
    exact combination_eq_error hbefore hA

/-- An automaton that starts at its last state and ends at its first. An edge enters the entry, one
    leaves the exit, and one state is of no use. -/
def tangled : Automaton where
  size := 3
  starting := .ofList [2]
  final := .ofList [0]
  edges := .ofList [Edge.mk 2 0 (some 'a'), Edge.mk 0 2 (some 'b'), Edge.mk 0 0 (some 'c'),
    Edge.epsilon 1 2]

/-- An automaton whose one state is entry and exit. -/
def knot : Automaton where
  size := 1
  starting := .ofList [0]
  final := .ofList [0]
  edges := .ofList [Edge.mk 0 0 (some 'd')]

theorem joined_accepts_iff_knots :
    (∀ A ∈ [knot, tangled, knot], A.WellFormed ∧ A.Atomic) ∧
    (∃ row side, concatenation [knot, tangled, knot] = .ok row ∧
      Joins [knot, tangled, knot] row ∧ row.size = 7 ∧
      (∀ word, row.accepts word = true ↔ ∃ pieces : List (List Char), word = pieces.flatten ∧
        List.Forall₂ (fun A piece => A.accepts piece = true) [knot, tangled, knot] pieces) ∧
      row.accepts "dacbadd".toList = true ∧
      disjunction [knot, tangled, knot] = .ok side ∧ Joins [knot, tangled, knot] side ∧
      ∀ word, side.accepts word = true ↔
        ∃ A ∈ [knot, tangled, knot], A.accepts word = true) ∧
    (knot.Atomic ∧ ¬ branching.Atomic ∧
      concatenation [knot, branching, tangled] = .error (.notAtomic 2 2) ∧
      disjunction [knot, branching, tangled] = .error (.notAtomic 2 2)) := by
  have hjoined : ∀ A ∈ [knot, tangled, knot], A.WellFormed ∧ A.Atomic := by decide +kernel
  have hwell : ∀ A ∈ [knot, branching, tangled], A.WellFormed := by decide +kernel
  have hknot : knot.Atomic := by decide +kernel
  have hbranching : ¬ branching.Atomic := by decide +kernel
  rcases (joined_accepts_iff fun A hA => (hjoined A hA).1).1 fun A hA => (hjoined A hA).2 with
    ⟨row, side, hrow, hjoins, haccepts, hside⟩
  have hword : row.accepts "dacbadd".toList = true :=
    (haccepts _).2 ⟨["d".toList, "acba".toList, "dd".toList], by decide, by decide +kernel⟩
  have hfault := (joined_accepts_iff hwell).2 [knot] branching [tangled] rfl
    (fun B hB => by rwa [List.mem_singleton.1 hB]) hbranching
  exact ⟨hjoined, ⟨row, side, hrow, hjoins, hjoins.size_eq.trans rfl, haccepts, hword, hside⟩,
    hknot, hbranching, hfault⟩

/-! ### The way back -/

/-- Any atomic automaton with a way back accepts the words that are made of one or more words which
    it accepted before. Sizes and marks stay as they are, and a second way back changes nothing. -/
theorem iteration_accepts_iff (hA : A.WellFormed) (hatomic : A.Atomic) :
    ∃ B, A.iteration = .ok B ∧
      (∀ word, B.accepts word = true ↔ ∃ pieces : List (List Char), pieces ≠ [] ∧
        word = pieces.flatten ∧ ∀ piece ∈ pieces, A.accepts piece = true) ∧
      B.iteration = .ok B ∧ B.size = A.size ∧ B.starting = A.starting ∧ B.final = A.final := by
  rcases atomic_iff.1 hatomic with ⟨ends, hends⟩
  have hlt := hA.ends_lt hends
  have hback := iteration_eq hends
  have hwell : (A.addEdge (.epsilon ends.exit ends.entry)).WellFormed :=
    hA.addEpsilon hlt.2 hlt.1
  refine ⟨_, hback, fun word => ?_, ?_, rfl, rfl, rfl⟩
  · -- A path is cut at each use of the way back, into pieces from the entry to the exit.
    rw [accepts_eq_true_iff hwell, language_iteration hends hback, ← accepted_eq_language hA,
      mem_mul_kstar_iff]
    rfl
  · -- The ends are the same as before, so the second edge is there already.
    have hagain : (A.addEdge (.epsilon ends.exit ends.entry)).ends = .ok ends := hends
    rw [iteration_eq hagain, addEdge_of_mem (mem_edges_addEdge.2 (Or.inl rfl))]

theorem tangled_iteration_accepts_iff : tangled.WellFormed ∧ tangled.Atomic ∧
    ∃ B, tangled.iteration = .ok B ∧
      (∀ word, B.accepts word = true ↔ ∃ pieces : List (List Char), pieces ≠ [] ∧
        word = pieces.flatten ∧ ∀ piece ∈ pieces, tangled.accepts piece = true) ∧
      B.accepts "acabaa".toList = true ∧ B.iteration = .ok B ∧ B.size = 3 := by
  have hwell : tangled.WellFormed := by decide +kernel
  have hatomic : tangled.Atomic := by decide +kernel
  rcases iteration_accepts_iff hwell hatomic with ⟨B, hB, haccepts, hagain, hsize, -⟩
  refine ⟨hwell, hatomic, B, hB, haccepts, ?_, hagain, hsize⟩
  exact (haccepts _).2 ⟨["ac".toList, "aba".toList, "a".toList], by decide, by decide,
    by decide +kernel⟩

/-! ### The way around -/

/-- Any atomic automaton with a way around accepts what it accepted before, and the words that run
    from the entry back to it, then any number of times from the exit to the entry, and at last from
    the exit back to it. The empty word is always one of these, and the only one if no edge enters
    the entry and no edge leaves the exit. -/
theorem option_accepts_iff (hA : A.WellFormed) (h : A.HasEnds entry exit) :
    ∃ B, A.option = .ok B ∧
      (∀ word, B.accepts word = true ↔ A.accepts word = true ∨
        ∃ (u : List Char) (loops : List (List Char)) (v : List Char),
          word = u ++ loops.flatten ++ v ∧ A.Path entry u entry ∧
          (∀ loop ∈ loops, A.Path exit loop entry) ∧ A.Path exit v exit) ∧
      B.accepts [] = true ∧ (∀ word, A.accepts word = true → B.accepts word = true) ∧
      ((∀ e ∈ A.edges, e.target ≠ entry) → (∀ e ∈ A.edges, e.source ≠ exit) →
        ∀ word, B.accepts word = true ↔ word = [] ∨ A.accepts word = true) := by
  have hends := ends_eq_ok_iff_hasEnds.2 h
  have hlt := hA.ends_lt hends
  have haround := option_eq hends
  have hwell : (A.addEdge (.epsilon entry exit)).WellFormed := hA.addEpsilon hlt.1 hlt.2
  have haccepts : ∀ word, (A.addEdge (.epsilon entry exit)).accepts word = true ↔
      A.accepts word = true ∨ ∃ (u : List Char) (loops : List (List Char)) (v : List Char),
        word = u ++ loops.flatten ++ v ∧ A.Path entry u entry ∧
        (∀ loop ∈ loops, A.Path exit loop entry) ∧ A.Path exit v exit := by
    intro word
    rw [accepts_eq_true_iff hwell, accepts_eq_true_iff hA]
    exact mem_language_option hends haround
  -- The empty word takes the new edge alone.
  have hnil : (A.addEdge (.epsilon entry exit)).accepts [] = true :=
    (haccepts []).2 (Or.inr ⟨[], [], [], rfl, .nil entry, by simp, .nil exit⟩)
  refine ⟨_, haround, haccepts, hnil, fun word hword => (haccepts word).2 (Or.inl hword), ?_⟩
  intro hentry hexit word
  constructor
  · intro hword
    rcases (haccepts word).1 hword with hword | ⟨u, loops, v, rfl, hu, hloops, hv⟩
    · exact Or.inr hword
    · -- Nothing comes back to the entry, and nothing gets away from the exit.
      have hempty : loops.flatten = [] := List.flatten_eq_nil_iff.2 fun loop hloop =>
        ((hloops loop hloop).eq_of_not_left hexit).2
      rw [(hu.eq_of_not_entered hentry).2, hempty, (hv.eq_of_not_left hexit).2]
      exact Or.inl rfl
  · intro hword
    rcases hword with rfl | hword
    · exact hnil
    · exact (haccepts word).2 (Or.inl hword)

theorem tangled_option_accepts_iff :
    (tangled.WellFormed ∧ tangled.HasEnds 2 0 ∧ tangled.accepts ['c', 'b'] = false ∧
      ∃ B, tangled.option = .ok B ∧
        (∀ word, B.accepts word = true ↔ tangled.accepts word = true ∨
          ∃ (u : List Char) (loops : List (List Char)) (v : List Char),
            word = u ++ loops.flatten ++ v ∧ tangled.Path 2 u 2 ∧
            (∀ loop ∈ loops, tangled.Path 0 loop 2) ∧ tangled.Path 0 v 0) ∧
        B.accepts ['c', 'b'] = true ∧ B.accepts [] = true) ∧
    (singleEdges ['a']).WellFormed ∧ (singleEdges ['a']).HasEnds 0 1 ∧
      ∃ B, (singleEdges ['a']).option = .ok B ∧
        ∀ word, B.accepts word = true ↔ word = [] ∨ (singleEdges ['a']).accepts word = true := by
  have htangled : tangled.WellFormed := by decide +kernel
  have hsingle : (singleEdges ['a']).WellFormed := by decide +kernel
  have hends : tangled.HasEnds 2 0 := ⟨rfl, rfl⟩
  have hends' : (singleEdges ['a']).HasEnds 0 1 := ⟨rfl, rfl⟩
  -- The exit is left and the entry entered, so a word is accepted that begins at the exit.
  have hstay : Edge.mk 0 0 (some 'c') ∈ tangled.edges := Edge.mem_ofList.2 (by simp)
  have hback : Edge.mk 0 2 (some 'b') ∈ tangled.edges := Edge.mem_ofList.2 (by simp)
  have hloop : tangled.Path 0 ['c', 'b'] 2 := (path_of_edge hstay).append (path_of_edge hback)
  rcases option_accepts_iff htangled hends with ⟨B, hB, haccepts, hnil, -⟩
  rcases option_accepts_iff hsingle hends' with ⟨C, hC, -, -, -, hexact⟩
  refine ⟨⟨htangled, hends, by decide +kernel, B, hB, haccepts, ?_, hnil⟩, hsingle, hends', C, hC,
    hexact ?_ ?_⟩
  · exact (haccepts _).2 (Or.inr ⟨[], [['c', 'b']], [], rfl, .nil 2, by simpa using hloop, .nil 0⟩)
  · intro e he
    rw [(ends_of_mem_singleEdges he).2]
    exact Nat.one_ne_zero
  · intro e he
    rw [(ends_of_mem_singleEdges he).1]
    exact Nat.zero_ne_one

end Automaton

end FiniteState
