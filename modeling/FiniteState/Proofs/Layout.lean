import FiniteState.Proofs.Combinations
import FiniteState.Proofs.Heights
import FiniteState.Proofs.Stages
import FiniteState.Proofs.Unsupported

/-!
# Layout of Compiled Trees

The automaton of a tree can be drawn from the tree alone: how many states it has, where among them
those of each child are, and which edges connect the children.

A row and an alternation put a new entry before the automata of their children and a new exit behind
them. Each child begins where the one before it ends, so its edges are found again with their states
counted from there. A repetition and an optional part have no states of their own. They keep the
automaton of the child and add an epsilon edge from one of its ends to the other, and a chain of
them, however long, is as large as the tree at the bottom of it.

No harm comes of edges that are added in place, as nothing enters the first state or leaves the last
one but an epsilon edge from the last to the first (`Automaton.Gated`). The layout says in addition
which trees have this edge, that every other state belongs to one child, and that the child is
connected with the rest by no other edges than links at its ends.

A layout is that of the root. The children have automata, so what is inside a copy is again laid out
by a child.

## Main definitions

* `Regex.stateCount`: The number of states.
* `Regex.Copy`, `Regex.copies`: Where the states of the children begin.
* `Regex.Copy.Carries`: An edge is one of a child, with its states renumbered.
* `Regex.links`: The epsilon edges that a node adds.
* `Regex.LaidOut`: An automaton is as the tree lays it out.

## Theorems

* `Regex.size_of_compile`: The number of states is right.
* `Regex.existsUnique_copies`: A state between the ends belongs to one child.
* `Regex.mem_edges_of_compile`: All edges of an automaton.
* `Regex.carried_of_compile`: The edges of a state between the ends.
* `Regex.gate_mem_iff`: Which trees have an edge from the last state to the first.
* `Regex.laidOut_of_compile`: Automata of trees are laid out.
-/

namespace FiniteState

namespace Regex

mutual

/-- The number of states of the automaton of a tree. -/
def stateCount : Regex → Nat
  | character _ => 2
  | characterSet _ => 2
  | wildcard => 2
  -- There is no automaton, and any number would do.
  | missing => 2
  | concatenation parts => 2 + stateCountAll parts
  | alternation branches => 2 + stateCountAll branches
  | iteration body => body.stateCount
  | optional body => body.stateCount

/-- The number of states of the automata of trees together. -/
def stateCountAll : List Regex → Nat
  | [] => 0
  | node :: rest => node.stateCount + stateCountAll rest

end

/-- A child of a node, and the number of the state at which its copy begins. -/
structure Copy where
  node : Regex
  first : Nat

namespace Copy

/-- The last state of a copy. -/
def last (copy : Copy) : Nat :=
  copy.first + copy.node.stateCount - 1

/-- A state belongs to a copy. -/
def Holds (copy : Copy) (s : Nat) : Prop :=
  copy.first ≤ s ∧ s ≤ copy.last

/-- An edge is one of the automaton of the child, renumbered. -/
def Carries (copy : Copy) (e : Edge) : Prop :=
  ∃ A, copy.node.compile = .ok A ∧ ∃ f ∈ A.edges, e = f.shift copy.first

end Copy

/-- The copies of trees one after another. -/
def placed : Nat → List Regex → List Copy
  | _, [] => []
  | first, node :: rest => ⟨node, first⟩ :: placed (first + node.stateCount) rest

/-- The copies of the children of a node. Behind a new entry they begin at state 1. -/
def copies : Regex → List Copy
  | concatenation parts => placed 1 parts
  | alternation branches => placed 1 branches
  | iteration body => [⟨body, 0⟩]
  | optional body => [⟨body, 0⟩]
  | _ => []

/-- The epsilon edges that a node adds: from its entry through the copies in a row to its exit, from
    its entry to its exit through any copy, back to its entry, or around everything. -/
def links (node : Regex) : List Edge :=
  let exit := node.stateCount - 1
  match node with
  | concatenation _ =>
    List.zipWith Edge.epsilon (0 :: node.copies.map Copy.last)
      (node.copies.map Copy.first ++ [exit])
  | alternation _ =>
    node.copies.flatMap fun copy => [.epsilon 0 copy.first, .epsilon copy.last exit]
  | iteration _ => [.epsilon exit 0]
  | optional _ => [.epsilon 0 exit]
  | _ => []

/-- A tree is a leaf that reads a character. -/
def LeafReads : Regex → Char → Prop
  | character symbols, c => c ∈ symbols
  | characterSet ranges, c => ∃ range ∈ ranges, range.1 ≤ c ∧ c ≤ range.2
  | wildcard, c => isSymbol c = true
  | _, _ => False

/-- An edge leads from the entry of a leaf to its exit. -/
def LeafEdge (node : Regex) (e : Edge) : Prop :=
  ∃ c, node.LeafReads c ∧ e = ⟨0, 1, some c⟩

/-- A repetition is at the root of a tree, or nothing but optional parts are above it. -/
def Repeats : Regex → Prop
  | iteration _ => True
  | optional body => body.Repeats
  | _ => False

/-- An automaton has the ends, the states and the edges that a tree lays out. -/
structure LaidOut (node : Regex) (A : Automaton) : Prop extends A.Gated where
  size_eq : A.size = node.stateCount
  /-- The epsilon edge from the last state to the first is there if the root repeats. -/
  gate_mem_iff : Edge.epsilon (A.size - 1) 0 ∈ A.edges ↔ node.Repeats
  /-- The children have automata of their own. -/
  compiles : ∀ copy ∈ node.copies, ∃ B, copy.node.compile = .ok B
  /-- The edges are those of a leaf, the links, and those of the copies. -/
  mem_edges_iff : ∀ e, e ∈ A.edges ↔
    node.LeafEdge e ∨ e ∈ node.links ∨ ∃ copy ∈ node.copies, copy.Carries e
  /-- Every state between the ends belongs to the copy of one child. -/
  existsUnique_copy : ∀ s, 0 < s → s < A.size - 1 → ∃! copy, copy ∈ node.copies ∧ copy.Holds s
  /-- Such a state has edges of its copy, and links if the copy begins or ends there. -/
  carried : ∀ copy ∈ node.copies, ∀ s, copy.Holds s → 0 < s → s < A.size - 1 → ∀ e ∈ A.edges,
    e.source = s ∨ e.target = s → copy.Carries e ∨
      (e ∈ node.links ∧ e.label = none ∧ (s = copy.first ∨ s = copy.last))

variable {node : Regex} {nodes : List Regex} {A : Automaton} {e : Edge}

/-! ### Sizes -/

/-- A tree with an automaton holds nothing but symbols. -/
theorem supported_of_compile (h : node.compile = .ok A) : node.Supported := by
  by_contra hnot
  rcases exists_firstUnsupported node hnot with ⟨c, hc⟩
  rw [hc.compile_eq_error] at h
  exact nomatch h

theorem gated_of_compile (h : node.compile = .ok A) : A.Gated := by
  rcases compile_eq_ok node (supported_of_compile h) with ⟨B, hB, hgated, -⟩
  rwa [Except.ok.inj (h.symm.trans hB)]

theorem compileAll_eq_ok_iff {members : List Automaton} : compileAll nodes = .ok members ↔
    List.Forall₂ (fun node A => node.compile = .ok A) nodes members := by
  rw [← mapM_eq_compileAll fun _ _ => rfl, mapM_eq_ok_iff]

theorem eq_of_compile_character {symbols : List Char}
    (h : (character symbols).compile = .ok A) : A = singleEdges symbols := by
  rw [compile, bind_eq_ok_iff] at h
  rcases h with ⟨found, hfound, hA⟩
  rw [← Except.ok.inj hA, (checkSymbols_eq_ok_iff.1 hfound).1]

theorem eq_of_compile_characterSet {ranges : List (Char × Char)}
    (h : (characterSet ranges).compile = .ok A) :
    A = singleEdges (ranges.map fun range => charactersBetween range.1 range.2).flatten := by
  rw [compile_characterSet (supported_of_compile h)] at h
  exact (Except.ok.inj h).symm

/-- A repetition keeps the automaton of its child and adds the way back. -/
theorem exists_of_compile_iteration {body : Regex} (h : (iteration body).compile = .ok A) :
    ∃ B, body.compile = .ok B ∧ A = B.addEdge (.epsilon (B.size - 1) 0) := by
  rw [compile, bind_eq_ok_iff] at h
  rcases h with ⟨B, hB, hA⟩
  rw [Automaton.iteration_eq (gated_of_compile hB).ends_eq] at hA
  exact ⟨B, hB, (Except.ok.inj hA).symm⟩

/-- An optional part keeps it too and adds the way around. -/
theorem exists_of_compile_optional {body : Regex} (h : (optional body).compile = .ok A) :
    ∃ B, body.compile = .ok B ∧ A = B.addEdge (.epsilon 0 (B.size - 1)) := by
  rw [compile, bind_eq_ok_iff] at h
  rcases h with ⟨B, hB, hA⟩
  rw [Automaton.option_eq (gated_of_compile hB).ends_eq] at hA
  exact ⟨B, hB, (Except.ok.inj hA).symm⟩

mutual

/-- The automaton of a tree has as many states as are counted. -/
theorem size_of_compile : ∀ (node : Regex) {A : Automaton}, node.compile = .ok A →
    A.size = node.stateCount
  | character _, A, h => by
    rw [eq_of_compile_character h]
    rfl
  | characterSet _, A, h => by
    rw [eq_of_compile_characterSet h]
    rfl
  | wildcard, A, h => by
    rw [← Except.ok.inj h]
    rfl
  | missing, A, h => nomatch h
  | concatenation parts, A, h => by
    rw [compile, bind_eq_ok_iff] at h
    rcases h with ⟨members, hmembers, hA⟩
    rw [(Automaton.joins_concatenation hA).size_eq, sum_size_of_compileAll parts hmembers,
      stateCount]
  | alternation branches, A, h => by
    rw [compile, bind_eq_ok_iff] at h
    rcases h with ⟨members, hmembers, hA⟩
    rw [(Automaton.joins_disjunction hA).size_eq, sum_size_of_compileAll branches hmembers,
      stateCount]
  -- The way back is an edge and no state.
  | iteration body, A, h => by
    rcases exists_of_compile_iteration h with ⟨B, hB, rfl⟩
    rw [stateCount, ← size_of_compile body hB]
    rfl
  | optional body, A, h => by
    rcases exists_of_compile_optional h with ⟨B, hB, rfl⟩
    rw [stateCount, ← size_of_compile body hB]
    rfl

theorem sum_size_of_compileAll : ∀ (nodes : List Regex) {members : List Automaton},
    compileAll nodes = .ok members → (members.map Automaton.size).sum = stateCountAll nodes
  | [], members, h => by
    rw [← Except.ok.inj h]
    rfl
  | node :: rest, members, h => by
    rw [compileAll_eq_ok_iff, List.forall₂_cons_left_iff] at h
    rcases h with ⟨A, others, hA, hothers, rfl⟩
    rw [List.map_cons, List.sum_cons, size_of_compile node hA,
      sum_size_of_compileAll rest (compileAll_eq_ok_iff.2 hothers), stateCountAll]

end

theorem two_le_stateCount : ∀ node : Regex, 2 ≤ node.stateCount
  | character _ => le_refl 2
  | characterSet _ => le_refl 2
  | wildcard => le_refl 2
  | missing => le_refl 2
  | concatenation _ => Nat.le_add_right _ _
  | alternation _ => Nat.le_add_right _ _
  | iteration body => two_le_stateCount body
  | optional body => two_le_stateCount body

/-! ### Copies -/

theorem Copy.holds_iff {copy : Copy} {s : Nat} :
    copy.Holds s ↔ copy.first ≤ s ∧ s < copy.first + copy.node.stateCount := by
  have hcount := two_le_stateCount copy.node
  simp only [Copy.Holds, Copy.last]
  omega

theorem Copy.holds_first (copy : Copy) : copy.Holds copy.first := by
  have hcount := two_le_stateCount copy.node
  rw [holds_iff]
  omega

theorem Copy.holds_last (copy : Copy) : copy.Holds copy.last := by
  have hcount := two_le_stateCount copy.node
  simp only [Holds, last]
  omega

/-- The edges of a copy stay in it. -/
theorem Copy.Carries.holds {copy : Copy} (h : copy.Carries e) :
    copy.Holds e.source ∧ copy.Holds e.target := by
  rcases h with ⟨A, hA, f, hf, rfl⟩
  have hwell := (gated_of_compile hA).wellFormed
  have hsource := hwell.source_lt f hf
  have htarget := hwell.target_lt f hf
  rw [size_of_compile _ hA] at hsource htarget
  simp only [holds_iff, Edge.shift]
  omega

theorem placed_bounds {offset : Nat} {copy : Copy} (h : copy ∈ placed offset nodes) {s : Nat}
    (hs : copy.Holds s) : offset ≤ s ∧ s < offset + stateCountAll nodes := by
  induction nodes generalizing offset with
  | nil => exact absurd h List.not_mem_nil
  | cons node rest ih =>
    rw [stateCountAll]
    rcases List.mem_cons.1 h with rfl | hrest
    · simp only [Copy.holds_iff] at hs
      omega
    · have hbounds := ih hrest
      omega

theorem first_pos_of_mem_placed {copy : Copy} (h : copy ∈ placed 1 nodes) : 0 < copy.first :=
  (placed_bounds h copy.holds_first).1

/-- Every state within the bounds of the copies belongs to one of them. -/
theorem existsUnique_placed {offset s : Nat} (hlow : offset ≤ s)
    (hhigh : s < offset + stateCountAll nodes) :
    ∃! copy, copy ∈ placed offset nodes ∧ copy.Holds s := by
  induction nodes generalizing offset with
  | nil => exact absurd hhigh (Nat.not_lt.2 hlow)
  | cons node rest ih =>
    rw [stateCountAll, ← Nat.add_assoc] at hhigh
    by_cases hs : s < offset + node.stateCount
    · -- The other copies begin after the first one.
      refine ⟨⟨node, offset⟩, ⟨List.mem_cons_self, Copy.holds_iff.2 ⟨hlow, hs⟩⟩, ?_⟩
      rintro copy ⟨hcopy, hholds⟩
      rcases List.mem_cons.1 hcopy with rfl | hrest
      · rfl
      · exact absurd hs (Nat.not_lt.2 (placed_bounds hrest hholds).1)
    -- The first copy ends before the state, so it belongs to one of the others.
    · rcases ih (Nat.not_lt.1 hs) hhigh with ⟨copy, ⟨hcopy, hholds⟩, hunique⟩
      refine ⟨copy, ⟨List.mem_cons_of_mem _ hcopy, hholds⟩, ?_⟩
      rintro other ⟨hother, hother'⟩
      rcases List.mem_cons.1 hother with rfl | hrest
      · exact absurd (Copy.holds_iff.1 hother').2 hs
      · exact hunique other ⟨hrest, hother'⟩

theorem existsUnique_whole (body : Regex) {s : Nat} (hs : s < body.stateCount - 1) :
    ∃! copy, copy ∈ [Copy.mk body 0] ∧ copy.Holds s := by
  have hholds : (Copy.mk body 0).Holds s := Copy.holds_iff.2 ⟨Nat.zero_le s, by simp only; omega⟩
  exact ⟨_, ⟨List.mem_singleton_self _, hholds⟩, fun copy hcopy => List.mem_singleton.1 hcopy.1⟩

/-- Every state between the ends belongs to the copy of one child. -/
theorem existsUnique_copies {s : Nat} (hlow : 0 < s) (hhigh : s < node.stateCount - 1) :
    ∃! copy, copy ∈ node.copies ∧ copy.Holds s := by
  cases node with
  | concatenation parts =>
    rw [stateCount] at hhigh
    exact existsUnique_placed hlow (by omega)
  | alternation branches =>
    rw [stateCount] at hhigh
    exact existsUnique_placed hlow (by omega)
  | iteration body => exact existsUnique_whole body hhigh
  | optional body => exact existsUnique_whole body hhigh
  | _ => exact absurd hhigh (Nat.not_lt.2 hlow)

theorem node_mem_of_mem_placed {offset : Nat} {copy : Copy} (h : copy ∈ placed offset nodes) :
    copy.node ∈ nodes := by
  induction nodes generalizing offset with
  | nil => exact absurd h List.not_mem_nil
  | cons node rest ih =>
    rcases List.mem_cons.1 h with rfl | hrest
    · exact List.mem_cons_self
    · exact List.mem_cons_of_mem node (ih hrest)

/-- What is copied is part of the tree. -/
theorem within_of_mem_copies {copy : Copy} (h : copy ∈ node.copies) : copy.node.Within node := by
  cases node with
  | concatenation parts => exact .concatenation (node_mem_of_mem_placed h) .itself
  | alternation branches => exact .alternation (node_mem_of_mem_placed h) .itself
  | iteration body =>
    rw [List.mem_singleton.1 h]
    exact .iteration .itself
  | optional body =>
    rw [List.mem_singleton.1 h]
    exact .optional .itself
  | _ => exact absurd h List.not_mem_nil

/-! ### Edges -/

/-- A part is the automaton of a tree with its ends. -/
def Makes (node : Regex) (part : Automaton × Ends) : Prop :=
  node.compile = .ok part.1 ∧ part.2 = ⟨0, node.stateCount - 1⟩

variable {parts : List (Automaton × Ends)}

theorem forall₂_makes (hnodes : compileAll nodes = .ok (parts.map Prod.fst))
    (hends : ∀ part ∈ parts, part.1.ends = .ok part.2) : List.Forall₂ Makes nodes parts := by
  rw [compileAll_eq_ok_iff, List.forall₂_map_right_iff] at hnodes
  induction hnodes with
  | nil => exact .nil
  | @cons node part nodes parts hnode _ ih =>
    rcases List.forall_mem_cons.1 hends with ⟨hpart, hrest⟩
    refine .cons ⟨hnode, ?_⟩ (ih hrest)
    rw [(gated_of_compile hnode).ends_eq, size_of_compile node hnode] at hpart
    exact (Except.ok.inj hpart).symm

/-- The spans of copies are their first and last states. -/
theorem spans_ofParts (h : List.Forall₂ Makes nodes parts) (offset : Nat) :
    (Splice.ofParts offset parts).spans =
      (placed offset nodes).map fun copy => ⟨copy.first, copy.last⟩ := by
  induction h generalizing offset with
  | nil => rfl
  | @cons node part nodes parts hpart _ ih =>
    have hcount := two_le_stateCount node
    have hspan : part.2.shift offset = ⟨offset, (Copy.mk node offset).last⟩ := by
      simp only [hpart.2, Ends.shift, Copy.last, Ends.mk.injEq]
      omega
    rw [Splice.ofParts, placed, List.map_cons, ← ih, ← size_of_compile node hpart.1, hspan]

theorem Copy.carries_iff {copy : Copy} (h : copy.node.compile = .ok A) :
    copy.Carries e ↔ e ∈ Edge.shift copy.first '' {f | f ∈ A.edges} := by
  constructor
  · rintro ⟨B, hB, f, hf, rfl⟩
    rw [← Except.ok.inj (h.symm.trans hB)] at hf
    exact ⟨f, hf, rfl⟩
  · rintro ⟨f, hf, rfl⟩
    exact ⟨A, h, f, hf, rfl⟩

/-- The edges of the copies are those that one of them carries. -/
theorem mem_edges_ofParts (h : List.Forall₂ Makes nodes parts) (offset : Nat) :
    e ∈ (Splice.ofParts offset parts).edges ↔ ∃ copy ∈ placed offset nodes, copy.Carries e := by
  induction h generalizing offset with
  | nil => simp [Splice.ofParts, placed]
  | @cons node part nodes parts hpart _ ih =>
    have hfirst : (Copy.mk node offset).Carries e ↔
        e ∈ Edge.shift offset '' {f | f ∈ part.1.edges} := Copy.carries_iff hpart.1
    rw [Splice.mem_edges_cons, ← hfirst, ih, placed, size_of_compile node hpart.1]
    simp

/-- A row of links leads from each exit to the next entry. -/
theorem chain_eq (exit origin : Nat) (spans : List Ends) :
    Splice.chain exit origin spans =
      List.zipWith Edge.epsilon (origin :: spans.map Ends.exit)
        (spans.map Ends.entry ++ [exit]) := by
  induction spans generalizing origin with
  | nil => rfl
  | cons span spans ih => simp [Splice.chain, ih]

/-- A row has the edges of the copies and its links. -/
theorem mem_edges_concatenation {children : List Regex}
    (h : (concatenation children).compile = .ok A) :
    e ∈ A.edges ↔ e ∈ (concatenation children).links ∨
      ∃ copy ∈ (concatenation children).copies, copy.Carries e := by
  have hsize := size_of_compile _ h
  rw [compile, bind_eq_ok_iff] at h
  rcases h with ⟨members, hmembers, hA⟩
  rcases Automaton.concatenation_eq_ok_iff.1 hA with ⟨parts, rfl, hends, rfl⟩
  have hmakes := forall₂_makes hmembers hends
  have hexit : (Splice.ofParts 1 parts).size = (concatenation children).stateCount - 1 := by
    rw [← hsize]
    rfl
  rw [Splice.mem_edges_enclose, mem_edges_ofParts hmakes, chain_eq, spans_ofParts hmakes, hexit,
    List.map_map, List.map_map, or_comm]
  rfl

example : (concatenation [wildcard, iteration wildcard]).links =
    [.epsilon 0 1, .epsilon 2 3, .epsilon 4 5] := by
  decide

/-- So has an alternation. -/
theorem mem_edges_alternation {children : List Regex}
    (h : (alternation children).compile = .ok A) :
    e ∈ A.edges ↔ e ∈ (alternation children).links ∨
      ∃ copy ∈ (alternation children).copies, copy.Carries e := by
  have hsize := size_of_compile _ h
  rw [compile, bind_eq_ok_iff] at h
  rcases h with ⟨members, hmembers, hA⟩
  rcases Automaton.disjunction_eq_ok_iff.1 hA with ⟨parts, rfl, hends, rfl⟩
  have hmakes := forall₂_makes hmembers hends
  have hexit : (Splice.ofParts 1 parts).size = (alternation children).stateCount - 1 := by
    rw [← hsize]
    rfl
  rw [Splice.mem_edges_enclose, mem_edges_ofParts hmakes, Splice.fan, spans_ofParts hmakes, hexit,
    List.flatMap_map, or_comm]
  rfl

/-- A copy that begins at state 0 has the edges of the child as they are. -/
theorem Copy.carries_whole_iff {body : Regex} (h : body.compile = .ok A) :
    (Copy.mk body 0).Carries e ↔ e ∈ A.edges := by
  rw [Copy.carries_iff h]
  constructor
  · rintro ⟨f, hf, rfl⟩
    exact hf
  · intro he
    exact ⟨e, he, rfl⟩

/-- The edges of an automaton are those of a leaf, links, and those of the copies. -/
theorem mem_edges_of_compile (h : node.compile = .ok A) :
    e ∈ A.edges ↔ node.LeafEdge e ∨ e ∈ node.links ∨ ∃ copy ∈ node.copies, copy.Carries e := by
  cases node with
  | character symbols =>
    rw [eq_of_compile_character h, mem_edges_singleEdges]
    simp [LeafEdge, LeafReads, links, copies]
  | characterSet ranges =>
    rw [eq_of_compile_characterSet h, mem_edges_singleEdges]
    simp only [mem_flatten_charactersBetween (supported_of_compile h)]
    simp [LeafEdge, LeafReads, links, copies]
  | wildcard =>
    rw [← Except.ok.inj h, mem_edges_singleEdges]
    simp [LeafEdge, LeafReads, links, copies, mem_symbols]
  | missing => exact nomatch h
  | concatenation parts =>
    rw [mem_edges_concatenation h]
    simp [LeafEdge, LeafReads]
  | alternation branches =>
    rw [mem_edges_alternation h]
    simp [LeafEdge, LeafReads]
  -- The automaton of the body is one copy at its own place, and the gate is the only link.
  | iteration body =>
    rcases exists_of_compile_iteration h with ⟨B, hB, rfl⟩
    rw [Automaton.mem_edges_addEdge, size_of_compile body hB]
    simp [LeafEdge, LeafReads, links, copies, stateCount, Copy.carries_whole_iff hB]
  | optional body =>
    rcases exists_of_compile_optional h with ⟨B, hB, rfl⟩
    rw [Automaton.mem_edges_addEdge, size_of_compile body hB]
    simp [LeafEdge, LeafReads, links, copies, stateCount, Copy.carries_whole_iff hB]

/-! ### Entries and exits -/

/-- Links are epsilon edges. They leave the entry or the last state of a copy, and enter the exit or
    the first state of a copy. -/
theorem ends_of_mem_links (h : e ∈ node.links) : e.label = none ∧
    (e.source = 0 ∨ ∃ copy ∈ node.copies, e.source = copy.last) ∧
    (e.target = node.stateCount - 1 ∨ ∃ copy ∈ node.copies, e.target = copy.first) := by
  cases node with
  | concatenation parts =>
    -- In a row, the entry and the ends of the copies are paired with the starts of the copies and
    -- the exit.
    rw [links, ← List.map_uncurry_zip_eq_zipWith, List.mem_map] at h
    rcases h with ⟨⟨source, target⟩, hpair, rfl⟩
    rcases List.of_mem_zip hpair with ⟨hsource, htarget⟩
    refine ⟨rfl, ?_, ?_⟩
    · rw [List.mem_cons, List.mem_map] at hsource
      exact hsource.imp_right fun ⟨copy, hcopy, hlast⟩ => ⟨copy, hcopy, hlast.symm⟩
    · rw [List.mem_append, List.mem_singleton, List.mem_map, or_comm] at htarget
      exact htarget.imp_right fun ⟨copy, hcopy, hfirst⟩ => ⟨copy, hcopy, hfirst.symm⟩
  | alternation branches =>
    rw [links, List.mem_flatMap] at h
    rcases h with ⟨copy, hcopy, hlink⟩
    simp only [List.mem_cons, List.not_mem_nil, or_false] at hlink
    rcases hlink with rfl | rfl
    · exact ⟨rfl, Or.inl rfl, Or.inr ⟨copy, hcopy, rfl⟩⟩
    · exact ⟨rfl, Or.inr ⟨copy, hcopy, rfl⟩, Or.inl rfl⟩
  | iteration body =>
    obtain rfl := List.mem_singleton.1 h
    have hlast : (Copy.mk body 0).last = body.stateCount - 1 := by simp [Copy.last]
    exact ⟨rfl, Or.inr ⟨_, List.mem_singleton_self _, hlast.symm⟩,
      Or.inr ⟨_, List.mem_singleton_self _, rfl⟩⟩
  | optional body =>
    obtain rfl := List.mem_singleton.1 h
    exact ⟨rfl, Or.inl rfl, Or.inl rfl⟩
  | _ => exact absurd h List.not_mem_nil

theorem LeafReads.copies_eq {c : Char} (h : node.LeafReads c) : node.copies = [] := by
  cases node with
  | concatenation _ | alternation _ | iteration _ | optional _ => exact h.elim
  | _ => rfl

/-- A state between the ends has no other edges than those of its copy and, if it is an end of the
    copy, links. -/
theorem carried_of_compile (h : node.compile = .ok A) {copy : Copy} (hcopy : copy ∈ node.copies)
    {s : Nat} (hs : copy.Holds s) (hlow : 0 < s) (hhigh : s < A.size - 1) (he : e ∈ A.edges)
    (hends : e.source = s ∨ e.target = s) :
    copy.Carries e ∨ (e ∈ node.links ∧ e.label = none ∧ (s = copy.first ∨ s = copy.last)) := by
  rw [size_of_compile node h] at hhigh
  have hsame : ∀ other ∈ node.copies, other.Holds s → other = copy := fun other hother hother' =>
    (existsUnique_copies hlow hhigh).unique ⟨hother, hother'⟩ ⟨hcopy, hs⟩
  rcases (mem_edges_of_compile h).1 he with ⟨c, hreads, -⟩ | hlink | ⟨other, hother, hcarries⟩
  · rw [hreads.copies_eq] at hcopy
    exact absurd hcopy List.not_mem_nil
  · -- A link that does not begin at the entry begins where a copy ends, and this is the copy.
    rcases ends_of_mem_links hlink with ⟨hlabel, hsource, htarget⟩
    refine Or.inr ⟨hlink, hlabel, ?_⟩
    rcases hends with rfl | rfl
    · rcases hsource with hzero | ⟨other, hother, heq⟩
      · omega
      · rw [heq] at hsame ⊢
        rw [hsame other hother other.holds_last]
        exact Or.inr rfl
    · rcases htarget with hexit | ⟨other, hother, heq⟩
      · omega
      · rw [heq] at hsame ⊢
        rw [hsame other hother other.holds_first]
        exact Or.inl rfl
  -- The copy that carries the edge holds both of its ends, and the state is in no other copy.
  · have hholds := hcarries.holds
    have hheld : other.Holds s := by
      rcases hends with rfl | rfl
      · exact hholds.1
      · exact hholds.2
    rw [← hsame other hother hheld]
    exact Or.inl hcarries

/-! ### The gate -/

/-- Nothing enters the first state if no copy begins there. -/
theorem target_pos_of_compile (h : node.compile = .ok A)
    (hcopies : ∀ copy ∈ node.copies, 0 < copy.first) (he : e ∈ A.edges) : 0 < e.target := by
  have hcount := two_le_stateCount node
  rcases (mem_edges_of_compile h).1 he with ⟨c, -, rfl⟩ | hlink | ⟨copy, hcopy, hcarries⟩
  · exact Nat.one_pos
  · rcases (ends_of_mem_links hlink).2.2 with hexit | ⟨copy, hcopy, hfirst⟩
    · omega
    · rw [hfirst]
      exact hcopies copy hcopy
  · exact (hcopies copy hcopy).trans_le hcarries.holds.2.1

/-- The last state is linked to the first one by a repetition at the root, seen through optional
    parts. -/
theorem gate_mem_iff (node : Regex) {A : Automaton} (h : node.compile = .ok A) :
    Edge.epsilon (node.stateCount - 1) 0 ∈ A.edges ↔ node.Repeats := by
  have hnone : (∀ copy ∈ node.copies, 0 < copy.first) →
      Edge.epsilon (node.stateCount - 1) 0 ∉ A.edges :=
    fun hcopies he => (target_pos_of_compile h hcopies he).ne rfl
  cases node with
  | iteration body =>
    exact iff_of_true ((mem_edges_of_compile h).2 (Or.inr (Or.inl List.mem_cons_self))) trivial
  | optional body =>
    have hcount := two_le_stateCount body
    rcases exists_of_compile_optional h with ⟨B, hB, -⟩
    -- The way around leads to the exit, which is not the entry.
    have hother : Edge.epsilon (body.stateCount - 1) 0 ≠ .epsilon 0 (body.stateCount - 1) := by
      intro heq
      have htarget : 0 = body.stateCount - 1 := congrArg Edge.target heq
      omega
    rw [mem_edges_of_compile h, Repeats, ← gate_mem_iff body hB]
    simp [LeafEdge, LeafReads, links, copies, stateCount, Copy.carries_whole_iff hB, hother]
  | concatenation parts => exact iff_of_false (hnone fun _ => first_pos_of_mem_placed) id
  | alternation branches => exact iff_of_false (hnone fun _ => first_pos_of_mem_placed) id
  | _ => exact iff_of_false (hnone fun _ hcopy => absurd hcopy List.not_mem_nil) id

/-! ### Layouts -/

/-- Whatever the tree, its automaton begins at state 0 and ends at the last of the states that the
    tree counts. Nothing enters the first or leaves the last but one epsilon edge from the last to
    the first. Any other state has only edges of the child that it belongs to, and epsilon links
    where the copy of the child begins or ends. -/
theorem laidOut_of_compile (h : node.compile = .ok A) : node.LaidOut A := by
  have hsize := size_of_compile node h
  refine { gated_of_compile h with
    size_eq := hsize
    gate_mem_iff := ?_
    compiles := fun copy hcopy => ?_
    mem_edges_iff := fun e => mem_edges_of_compile h
    existsUnique_copy := fun s hlow hhigh => existsUnique_copies hlow (hsize ▸ hhigh)
    carried := fun copy hcopy s hs hlow hhigh e he hends =>
      carried_of_compile h hcopy hs hlow hhigh he hends }
  · rw [hsize]
    exact gate_mem_iff node h
  -- What stands below a tree that compiles has symbols only, so it compiles as well.
  · rcases compile_eq_ok copy.node ((supported_of_compile h).of_within (within_of_mem_copies hcopy))
      with ⟨B, hB, -⟩
    exact ⟨B, hB⟩

/-- Branches of which one is an empty row and one a repetition. -/
def branchingTree : Regex :=
  .alternation [.concatenation [], .character ['a', 'b'], .iteration (.characterSet [('a', 'c')])]

/-- The same branches, optional, repeated and optional again. -/
def chainedTree : Regex :=
  .optional (.iteration (.optional branchingTree))

theorem laidOut_of_compile_chainedTree :
    (∃ A, branchingTree.compile = .ok A ∧ branchingTree.LaidOut A ∧ A.size = 8 ∧
      Edge.epsilon 7 0 ∉ A.edges) ∧
    branchingTree.copies = [⟨.concatenation [], 1⟩, ⟨.character ['a', 'b'], 3⟩,
      ⟨.iteration (.characterSet [('a', 'c')]), 5⟩] ∧
    branchingTree.links = [.epsilon 0 1, .epsilon 2 7, .epsilon 0 3, .epsilon 4 7, .epsilon 0 5,
      .epsilon 6 7] ∧
    ∃ A, chainedTree.compile = .ok A ∧ chainedTree.LaidOut A ∧ A.size = 8 ∧
      Edge.epsilon 7 0 ∈ A.edges ∧ Edge.epsilon 0 7 ∈ A.edges := by
  have hsupported : branchingTree.Supported := by
    simp only [branchingTree, Supported, SupportedAll, List.forall_mem_cons, List.not_mem_nil,
      false_implies, implies_true, and_true, true_and]
    refine ⟨by decide, fun c hlow hhigh => isSymbol_eq_true_iff.2 ?_⟩
    have hlow' : 97 ≤ c.toNat := UInt32.le_iff_toNat_le.1 hlow
    have hhigh' : c.toNat ≤ 99 := UInt32.le_iff_toNat_le.1 hhigh
    omega
  have hchained : chainedTree.Supported := hsupported
  rcases compile_eq_ok branchingTree hsupported with ⟨A, hA, -⟩
  rcases compile_eq_ok chainedTree hchained with ⟨B, hB, -⟩
  have hlaid := laidOut_of_compile hA
  have hlaid' := laidOut_of_compile hB
  have hsize : A.size = 8 := hlaid.size_eq
  have hsize' : B.size = 8 := hlaid'.size_eq
  have hgate := hlaid.gate_mem_iff
  have hgate' := hlaid'.gate_mem_iff
  rw [hsize] at hgate
  rw [hsize'] at hgate'
  refine ⟨⟨A, hA, hlaid, hsize, fun h => hgate.1 h⟩, rfl, rfl, B, hB, hlaid', hsize',
    hgate'.2 trivial, ?_⟩
  exact (hlaid'.mem_edges_iff _).2 (Or.inr (Or.inl List.mem_cons_self))

end Regex

end FiniteState
