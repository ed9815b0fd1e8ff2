import FiniteState.Proofs.Subset

/-!
# The Determinized Automaton

The edges and the final states of the determinized automaton, in terms of the words that lead to
its states: an edge leads from the number of a word to the number of the word with one more symbol,
and a path that begins at the number of a word is determined by what it spells.

`determinize_congr` is the reason why the numbering is canonical. Two automata may have different
states and different alphabets. If the same words lead to the same sets in both, the same words lead
nowhere, and both accept the same words, then their constructions run side by side and produce the
same automaton. An automaton and its determinized form are such a pair if there is a state to begin
with, so determinizing again changes nothing. If there is none the result is a single state without
edges, and stays what it is.

## Theorems

* `Automaton.mem_edges_determinize`, `Automaton.mem_final_determinize`: Edges and final states.
* `Automaton.path_determinize`: Where a path leads, by the word that it spells.
* `Automaton.exists_path_final_determinize`: What can still be read from the state of a word.
* `Automaton.WellFormed.determinize`, `Automaton.language_determinize`: The result is well formed
  and accepts the same words.
* `Automaton.determinize_eq_of_reached_nil`: The result where there is nothing to begin with.
* `Automaton.isDeterministic_eq_true_iff`: What being deterministic says of the parts.
* `Automaton.isDeterministic_determinize`: The result is deterministic.
* `Automaton.determinize_isSubsetConstruction`: The construction ends, and with such a result.
* `Automaton.determinize_congr`: Automata that words cannot tell apart have the same result.
* `Automaton.reached_determinize_eq_iff`: Words that lead to the same set still do.
* `Automaton.determinize_determinize`: Determinizing again changes nothing.
-/

namespace FiniteState

namespace Automaton

variable {A B : Automaton}

theorem size_determinize (A : Automaton) : A.determinize.size = A.subsets.length := rfl

theorem starting_determinize (A : Automaton) : A.determinize.starting = .ofList [0] := rfl

theorem mem_starting_determinize {s : Nat} : s ∈ A.determinize.starting ↔ s = 0 := by
  rw [starting_determinize, StateSet.mem_ofList, List.mem_singleton]

/-- The final states are the numbers of the sets that hold a final state. -/
theorem mem_final_determinize (hA : A.WellFormed) {s : Nat} :
    s ∈ A.determinize.final ↔ ∃ word ∈ A.language, A.index word = s := by
  -- The list of numbered sets is searched first, and sets replaced by words after that.
  have hmem : s ∈ A.determinize.final ↔
      ∃ states, A.subsets[s]? = some states ∧ states.meets A.final = true := by
    simp only [determinize, StateSet.mem_ofList, List.mem_map, List.mem_filter]
    constructor
    · intro h
      rcases h with ⟨⟨states, i⟩, ⟨hentry, hmeets⟩, rfl⟩
      exact ⟨states, List.mk_mem_zipIdx_iff_getElem?.1 hentry, hmeets⟩
    · intro h
      rcases h with ⟨states, hget, hmeets⟩
      exact ⟨(states, s), ⟨List.mk_mem_zipIdx_iff_getElem?.2 hget, hmeets⟩, rfl⟩
  rw [hmem]
  constructor
  · intro h
    rcases h with ⟨states, hget, hmeets⟩
    rcases (mem_subsets hA).1 (List.mem_of_getElem? hget) with ⟨word, _, rfl⟩
    refine ⟨word, ?_, index_eq_of_getElem? hget⟩
    rw [mem_language_iff_reached hA]
    exact StateSet.meets_eq_true_iff.1 hmeets
  · intro h
    rcases h with ⟨word, hword, rfl⟩
    have hmeets := (mem_language_iff_reached hA).1 hword
    have hget := getElem?_index hA (Or.inr (reached_ne_empty_of_mem_language hA hword))
    exact ⟨_, hget, StateSet.meets_eq_true_iff.2 hmeets⟩

/-- An edge leads from the number of a word to the number of the word with one more symbol. -/
theorem mem_edges_determinize (hA : A.WellFormed) {e : Edge} :
    e ∈ A.determinize.edges ↔ ∃ word c, A.reached (word ++ [c]) ≠ ∅ ∧
      e = ⟨A.index word, A.index (word ++ [c]), some c⟩ := by
  -- First the edges in terms of places in the discovery, then the places as numbers of words.
  have hmem : e ∈ A.determinize.edges ↔ ∃ states s, A.subsets[s]? = some states ∧
      ∃ c ∈ A.live states, ⟨s, A.subsets.idxOf (A.next states c), some c⟩ = e := by
    simp only [determinize, Edge.mem_ofList, List.mem_flatMap, row_simulation, List.mem_map,
      Prod.exists, List.mk_mem_zipIdx_iff_getElem?, Prod.mk.injEq]
    constructor
    · intro h
      rcases h with ⟨states, s, hget, c, target, ⟨d, hd, rfl, rfl⟩, rfl⟩
      exact ⟨states, s, hget, d, hd, rfl⟩
    · intro h
      rcases h with ⟨states, s, hget, c, hc, rfl⟩
      exact ⟨states, s, hget, c, _, ⟨c, hc, rfl, rfl⟩, rfl⟩
  rw [hmem]
  constructor
  · intro h
    rcases h with ⟨states, s, hget, c, hc, rfl⟩
    rcases (mem_subsets hA).1 (List.mem_of_getElem? hget) with ⟨word, _, rfl⟩
    rw [mem_live hA, ← reached_snoc] at hc
    refine ⟨word, c, hc, ?_⟩
    rw [index_eq_of_getElem? hget, index, reached_snoc]
  · intro h
    rcases h with ⟨word, c, hc, rfl⟩
    have hword : A.Alive word := Or.inr (reached_append_ne_empty hc)
    rw [reached_snoc] at hc
    refine ⟨A.reached word, A.index word, getElem?_index hA hword, c, (mem_live hA).2 hc, ?_⟩
    rw [index, index, reached_snoc]

theorem WellFormed.determinize (hA : A.WellFormed) : A.determinize.WellFormed where
  starting_lt s hs := by
    rw [mem_starting_determinize.1 hs, size_determinize, ← A.index_nil]
    exact index_lt hA (Or.inl rfl)
  final_lt s hs := by
    rcases (mem_final_determinize hA).1 hs with ⟨word, hword, rfl⟩
    exact index_lt hA (Or.inr (reached_ne_empty_of_mem_language hA hword))
  source_lt e he := by
    rcases (mem_edges_determinize hA).1 he with ⟨word, c, hc, rfl⟩
    exact index_lt hA (Or.inr (reached_append_ne_empty hc))
  target_lt e he := by
    rcases (mem_edges_determinize hA).1 he with ⟨word, c, hc, rfl⟩
    exact index_lt hA (Or.inr hc)
  isSymbol_of_label e he d hd := by
    rcases (mem_edges_determinize hA).1 he with ⟨word, c, hc, rfl⟩
    obtain rfl : c = d := Option.some.inj hd
    -- A symbol that leads somewhere is on an edge of the automaton.
    have halphabet : c ∈ A.alphabet := by
      by_contra hnot
      rw [reached_snoc, next_of_not_mem_alphabet hA hnot] at hc
      exact hc rfl
    rcases mem_alphabet.1 halphabet with ⟨e, he, hlabel⟩
    exact hA.isSymbol_of_label e he c hlabel

/-- A path that begins at the number of a word leads to the number of the longer word, and there is
    such a path as long as words lead to states. -/
theorem path_determinize (hA : A.WellFormed) {u v : List Char} (hu : A.Alive u) {t : Nat} :
    A.determinize.Path (A.index u) v t ↔
      A.index (u ++ v) = t ∧ (v = [] ∨ A.reached (u ++ v) ≠ ∅) := by
  constructor
  · intro h
    generalize hs : A.index u = s at h
    induction h generalizing u with
    | nil s =>
      rw [List.append_nil]
      exact ⟨hs, Or.inl rfl⟩
    | @cons s m t label rest edge hpath ih =>
      rcases (mem_edges_determinize hA).1 edge with ⟨word, c, hc, he⟩
      rw [Edge.mk.injEq] at he
      rcases he with ⟨rfl, rfl, rfl⟩
      have hword : A.Alive word := Or.inr (reached_append_ne_empty hc)
      -- The edge may be that of another word, which then leads to the same set as `u`.
      have hreached : A.reached (u ++ [c]) = A.reached (word ++ [c]) := by
        rw [reached_snoc, reached_snoc, (index_eq_index_iff hA hu hword).1 hs]
      have hindex : A.index (u ++ [c]) = A.index (word ++ [c]) := by
        rw [index, index, hreached]
      have hne : A.reached (u ++ [c]) ≠ ∅ := by rwa [hreached]
      rcases ih (Or.inr hne) hindex with ⟨ht, hrest⟩
      rw [List.append_assoc] at ht hrest
      refine ⟨ht, Or.inr ?_⟩
      rcases hrest with rfl | hrest
      · exact hne
      · exact hrest
  · intro h
    rcases h with ⟨rfl, hv⟩
    -- Every symbol moves from `v` to the word that the path starts at.
    induction v generalizing u with
    | nil =>
      rw [List.append_nil]
      exact .nil _
    | cons c v ih =>
      have hne : A.reached (u ++ c :: v) ≠ ∅ := hv.resolve_left (List.cons_ne_nil c v)
      rw [List.append_cons] at hne
      have hstep := reached_append_ne_empty hne
      have hedge : A.determinize.Path (A.index u) [c] (A.index (u ++ [c])) :=
        path_of_edge ((mem_edges_determinize hA).2 ⟨u, c, hstep, rfl⟩)
      have hrest := ih (Or.inr hstep) (Or.inr hne)
      rw [← List.append_cons] at hrest
      exact hedge.append hrest

/-- From the starting state, a path leads to the number of the word that it spells. -/
theorem path_determinize_zero (hA : A.WellFormed) {word : List Char} {t : Nat} :
    A.determinize.Path 0 word t ↔ A.index word = t ∧ A.Alive word := by
  rw [← A.index_nil, path_determinize hA (Or.inl rfl), List.nil_append]
  exact Iff.rfl

/-- What can be read from the number of a word to a final state completes the word to an accepted
    one. -/
theorem exists_path_final_determinize (hA : A.WellFormed) {u v : List Char} (hu : A.Alive u) :
    (∃ t ∈ A.determinize.final, A.determinize.Path (A.index u) v t) ↔ u ++ v ∈ A.language := by
  simp only [path_determinize hA hu]
  constructor
  · intro h
    rcases h with ⟨t, ht, rfl, hv⟩
    have halive : A.Alive (u ++ v) := by
      rcases hv with rfl | hv
      · rwa [List.append_nil]
      · exact Or.inr hv
    rcases (mem_final_determinize hA).1 ht with ⟨other, hother, hindex⟩
    have halive' : A.Alive other := Or.inr (reached_ne_empty_of_mem_language hA hother)
    rw [mem_language_iff_reached hA, ← (index_eq_index_iff hA halive' halive).1 hindex]
    exact (mem_language_iff_reached hA).1 hother
  · intro hword
    exact ⟨A.index (u ++ v), (mem_final_determinize hA).2 ⟨_, hword, rfl⟩, rfl,
      Or.inr (reached_ne_empty_of_mem_language hA hword)⟩

theorem language_determinize (hA : A.WellFormed) : A.determinize.language = A.language := by
  ext word
  rw [mem_language, ← List.nil_append word, ← exists_path_final_determinize hA (Or.inl rfl),
    index_nil]
  simp only [mem_starting_determinize, exists_eq_left, List.nil_append]

/-- An automaton without anything to begin with is determinized to a single state without edges. -/
theorem determinize_eq_of_reached_nil (hA : A.WellFormed) (h : A.reached [] = ∅) :
    A.determinize = ⟨1, .ofList [0], ∅, ∅⟩ := by
  have hsize : A.determinize.size = 1 := by
    rw [size_determinize, subsets_eq_of_reached_nil hA h]
    rfl
  refine ext_edges hsize rfl (StateSet.ext_mem fun s => ?_) fun e => ?_
  · rw [mem_final_determinize hA]
    constructor
    · intro hs
      rcases hs with ⟨word, hword, _⟩
      exact absurd (reached_eq_empty h word) (reached_ne_empty_of_mem_language hA hword)
    · exact fun hs => absurd hs (StateSet.not_mem_empty s)
  · rw [mem_edges_determinize hA]
    constructor
    · intro he
      rcases he with ⟨word, c, hne, _⟩
      exact absurd (reached_eq_empty h _) hne
    · exact fun he => absurd he Std.ExtTreeSet.not_mem_empty

/-! ### Determinism -/

/-- The source and the label of an edge, kept as an edge to state 0. -/
def pair (e : Edge) : Edge :=
  ⟨e.source, 0, e.label⟩

theorem separate_eq_true_iff {seen : Std.ExtTreeSet Edge} {edges : List Edge} :
    separate seen edges = true ↔ (∀ e ∈ edges, pair e ∉ seen) ∧ (edges.map pair).Nodup := by
  induction edges generalizing seen with
  | nil => simp [separate]
  | cons e edges ih =>
    have hstep : separate seen (e :: edges)
        = (!seen.contains (pair e) && separate (seen.insert (pair e)) edges) := rfl
    -- Pairs are compared by the order of edges, and only equal ones compare as equal.
    have hinsert : ∀ f : Edge, pair f ∈ seen.insert (pair e) ↔ pair e = pair f ∨ pair f ∈ seen := by
      intro f
      rw [Std.ExtTreeSet.mem_insert, Std.LawfulEqCmp.compare_eq_iff_eq]
    rw [hstep, Bool.and_eq_true, ih, Bool.not_eq_true', ← Bool.not_eq_true,
      Std.ExtTreeSet.contains_iff_mem, List.forall_mem_cons, List.map_cons, List.nodup_cons,
      List.mem_map]
    simp only [hinsert, not_or, not_exists, not_and]
    constructor
    · intro h
      rcases h with ⟨he, hrest, hpairs⟩
      exact ⟨⟨he, fun f hf => (hrest f hf).2⟩, fun f hf heq => (hrest f hf).1 heq.symm, hpairs⟩
    · intro h
      rcases h with ⟨⟨he, hrest⟩, hfirst, hpairs⟩
      exact ⟨he, fun f hf => ⟨fun heq => hfirst f hf heq.symm, hrest f hf⟩, hpairs⟩

theorem size_le_one_iff {states : StateSet} :
    states.size ≤ 1 ↔ ∀ s ∈ states, ∀ t ∈ states, s = t := by
  have hmem : ∀ s, s ∈ states ↔ s ∈ states.toList := fun s => StateSet.mem_toList.symm
  have hsorted := states.pairwise_toList
  rw [StateSet.size]
  simp only [hmem]
  generalize states.toList = members at hsorted
  -- The members are in ascending order, so two of them would be different.
  rcases members with _ | ⟨s, _ | ⟨t, rest⟩⟩
  · simp
  · simp
  · have hlt := (List.pairwise_cons.1 hsorted).1 t List.mem_cons_self
    constructor
    · intro hlength
      simp only [List.length_cons] at hlength
      omega
    · intro h
      have := h s List.mem_cons_self t (List.mem_cons_of_mem s List.mem_cons_self)
      omega

/-- At most one starting state, no epsilon edges, and edges that agree in source and label are the
    same. -/
theorem isDeterministic_eq_true_iff : A.isDeterministic = true ↔
    (∀ s ∈ A.starting, ∀ t ∈ A.starting, s = t) ∧ (∀ e ∈ A.edges, e.label ≠ none) ∧
      ∀ e ∈ A.edges, ∀ f ∈ A.edges, e.source = f.source → e.label = f.label → e = f := by
  have hnodup : A.edges.toList.Nodup :=
    A.edges.distinct_toList.imp fun hne heq => hne (by simp [heq])
  rw [isDeterministic, Bool.and_eq_true, Bool.and_eq_true, decide_eq_true_iff, size_le_one_iff,
    List.all_eq_true, separate_eq_true_iff, List.nodup_map_iff_inj_on hnodup, and_assoc]
  simp only [Std.ExtTreeSet.mem_toList, Option.isSome_iff_ne_none, pair, Edge.mk.injEq, true_and,
    Std.ExtTreeSet.not_mem_empty, not_false_eq_true, implies_true, and_imp]

theorem isDeterministic_determinize (hA : A.WellFormed) :
    A.determinize.isDeterministic = true := by
  rw [isDeterministic_eq_true_iff]
  refine ⟨fun s hs t ht => ?_, fun e he => ?_, fun e he f hf hsource hlabel => ?_⟩
  · rw [mem_starting_determinize.1 hs, mem_starting_determinize.1 ht]
  · rcases (mem_edges_determinize hA).1 he with ⟨word, c, _, rfl⟩
    exact Option.some_ne_none c
  · rcases (mem_edges_determinize hA).1 he with ⟨u, c, hu, rfl⟩
    rcases (mem_edges_determinize hA).1 hf with ⟨v, d, hv, rfl⟩
    obtain rfl : c = d := Option.some.inj hlabel
    -- Words that share a number lead to the same set, and with one more symbol again.
    have hreached : A.reached u = A.reached v :=
      (index_eq_index_iff hA (Or.inr (reached_append_ne_empty hu))
        (Or.inr (reached_append_ne_empty hv))).1 hsource
    rw [index, index, index, index, reached_snoc, reached_snoc, hreached]

/-- The subset construction comes to an end, the searches for the closures before it as well. Its
    result is deterministic with the one starting state 0, has no epsilon edges, and accepts the
    same words. -/
theorem determinize_isSubsetConstruction (hA : A.WellFormed) :
    (∀ s < A.size, ∀ found, Search.Explores (fun t => (A.rows none).getD t []) (.ofList [s]) [s]
      found ↔ found = A.closures.getD s ∅) ∧
    (∀ found, Search.Discovers (fun states => (A.simulation.row states).map Prod.snd) 0
      [A.simulation.close A.starting] found ↔ found = A.subsets) ∧
    A.determinize.isDeterministic = true ∧ A.determinize.starting = .ofList [0] ∧
    (∀ e ∈ A.determinize.edges, e.label ≠ none) ∧
    ∀ word, A.determinize.accepts word = A.accepts word := by
  have hdet := isDeterministic_determinize hA
  refine ⟨fun s hs found => explores_closure_iff hA hs, fun found => discovers_subsets_iff hA,
    hdet, starting_determinize A, (isDeterministic_eq_true_iff.1 hdet).2.1, ?_⟩
  exact (accepts_eq_iff hA.determinize hA).2 (language_determinize hA)

/-- An automaton with two starting states, a cycle of epsilon edges, a choice between two edges and
    a state that nothing leads to. -/
def branching : Automaton where
  size := 5
  starting := .ofList [0, 3]
  final := .ofList [2, 3]
  edges := .ofList [Edge.epsilon 0 1, Edge.epsilon 1 0, ⟨1, 2, some 'a'⟩, ⟨1, 3, some 'a'⟩,
    ⟨3, 1, some 'b'⟩, ⟨4, 2, some 'c'⟩]

theorem determinize_branching_isSubsetConstruction : branching.WellFormed ∧
    (∀ s < branching.size, ∀ found,
      Search.Explores (fun t => (branching.rows none).getD t []) (.ofList [s]) [s] found ↔
        found = branching.closures.getD s ∅) ∧
    (∀ found, Search.Discovers (fun states => (branching.simulation.row states).map Prod.snd) 0
      [branching.simulation.close branching.starting] found ↔ found = branching.subsets) ∧
    branching.determinize.isDeterministic = true ∧
    branching.determinize.starting = .ofList [0] ∧
    (∀ e ∈ branching.determinize.edges, e.label ≠ none) ∧
    ∀ word, branching.determinize.accepts word = branching.accepts word :=
  ⟨by decide +kernel, determinize_isSubsetConstruction (by decide +kernel)⟩

/-! ### Automata that words cannot tell apart -/

/-- If words lead to equal sets in one automaton exactly if they do in the other, lead nowhere in
    one exactly if they do in the other, and are accepted by both or neither, then determinizing
    both yields the same automaton. -/
theorem determinize_congr (hA : A.WellFormed) (hB : B.WellFormed)
    (hsame : ∀ u v, A.reached u = A.reached v ↔ B.reached u = B.reached v)
    (hempty : ∀ word, A.reached word = ∅ ↔ B.reached word = ∅)
    (hlanguage : A.language = B.language) : A.determinize = B.determinize := by
  -- Sets correspond if a word leads to both. What is assumed of words makes this one to one.
  let corresponds : StateSet → StateSet → Prop := fun states others =>
    ∃ word, A.reached word = states ∧ B.reached word = others
  have hone : Search.OneToOne corresponds := by
    rintro _ _ _ _ ⟨u, rfl, rfl⟩ ⟨v, rfl, rfl⟩
    exact hsame u v
  have hsucc : ∀ states others, corresponds states others →
      List.Forall₂ corresponds (A.successors states) (B.successors others) := by
    rintro _ _ ⟨word, rfl, rfl⟩
    have hlive : A.live (A.reached word) = B.live (B.reached word) := by
      refine live_eq_live hA hB fun c => ?_
      rw [← reached_snoc, ← reached_snoc]
      exact hempty _
    rw [successors, successors, hlive, List.forall₂_map_left_iff, List.forall₂_map_right_iff,
      List.forall₂_same]
    exact fun c _ => ⟨word ++ [c], A.reached_snoc word c, B.reached_snoc word c⟩
  -- Both discoveries are given the same number of rounds, enough for either.
  have hsubsets : List.Forall₂ corresponds A.subsets B.subsets := by
    rw [subsets_eq_discover hA (2 ^ B.size), subsets_eq_discover hB (2 ^ A.size),
      Nat.add_comm (2 ^ B.size)]
    exact Search.forall₂_discover hone hsucc _ 0 (.cons ⟨[], rfl, rfl⟩ .nil)
  -- The sets of a word stand at the same place in both lists, and that place is its number.
  have hindex : ∀ word, A.reached word ≠ ∅ → A.index word = B.index word := by
    intro word hword
    have hget := getElem?_index hA (Or.inr hword)
    rcases List.getElem?_eq_some_iff.1 hget with ⟨hlt, heq⟩
    have hlt' : A.index word < B.subsets.length := hsubsets.length_eq ▸ hlt
    rcases hsubsets.get hlt hlt' with ⟨other, hother, hother'⟩
    have hreached : B.reached word = B.reached other := (hsame word other).1 (by
      rw [hother]
      exact heq.symm)
    refine (index_eq_of_getElem? ?_).symm
    rw [List.getElem?_eq_getElem hlt', hreached, hother']
    rfl
  refine ext_edges hsubsets.length_eq rfl (StateSet.ext_mem fun s => ?_) fun e => ?_
  · rw [mem_final_determinize hA, mem_final_determinize hB, ← hlanguage]
    refine exists_congr fun word => and_congr_right fun hword => ?_
    rw [hindex word (reached_ne_empty_of_mem_language hA hword)]
  · rw [mem_edges_determinize hA, mem_edges_determinize hB]
    refine exists_congr fun word => exists_congr fun c => ?_
    rw [ne_eq, ne_eq, hempty]
    refine and_congr_right fun hword => ?_
    rw [← hempty] at hword
    rw [hindex _ hword, hindex word (reached_append_ne_empty hword)]

/-! ### Determinizing again -/

/-- If there is a state to begin with, a word leads to its number in the determinized automaton, and
    nowhere if it leads nowhere before. -/
theorem mem_reached_determinize (hA : A.WellFormed) (hstart : A.reached [] ≠ ∅)
    {word : List Char} {t : Nat} :
    t ∈ A.determinize.reached word ↔ A.index word = t ∧ A.reached word ≠ ∅ := by
  rw [mem_reached hA.determinize]
  simp only [mem_starting_determinize, exists_eq_left, path_determinize_zero hA]
  refine and_congr_right fun _ => ⟨?_, Or.inr⟩
  rintro (rfl | hne)
  · exact hstart
  · exact hne

theorem reached_determinize_eq_empty_iff (hA : A.WellFormed) (hstart : A.reached [] ≠ ∅)
    {word : List Char} : A.determinize.reached word = ∅ ↔ A.reached word = ∅ := by
  constructor
  · intro h
    by_contra hne
    have hmem := (mem_reached_determinize hA hstart).2 ⟨rfl, hne⟩
    rw [h] at hmem
    exact StateSet.not_mem_empty _ hmem
  · intro h
    refine StateSet.ext_mem fun t => ⟨fun ht => ?_, fun ht => absurd ht (StateSet.not_mem_empty t)⟩
    exact absurd h ((mem_reached_determinize hA hstart).1 ht).2

/-- Words lead to the same set in the determinized automaton if they did before. -/
theorem reached_determinize_eq_iff (hA : A.WellFormed) (hstart : A.reached [] ≠ ∅)
    {u v : List Char} :
    A.determinize.reached u = A.determinize.reached v ↔ A.reached u = A.reached v := by
  constructor
  · intro h
    by_cases hu : A.reached u = ∅
    · have hempty := (reached_determinize_eq_empty_iff hA hstart).2 hu
      rw [h] at hempty
      rw [hu, (reached_determinize_eq_empty_iff hA hstart).1 hempty]
    · -- The number of the one set is a state of the other, and there is just one number in each.
      have hmem := (mem_reached_determinize hA hstart).2 ⟨rfl, hu⟩
      rw [h] at hmem
      rcases (mem_reached_determinize hA hstart).1 hmem with ⟨hindex, hv⟩
      exact ((index_eq_index_iff hA (Or.inr hv) (Or.inr hu)).1 hindex).symm
  · intro h
    refine StateSet.ext_mem fun t => ?_
    rw [mem_reached_determinize hA hstart, mem_reached_determinize hA hstart, index, index, h]

/-- Determinizing again changes nothing, state numbers included. -/
theorem determinize_determinize (hA : A.WellFormed) :
    A.determinize.determinize = A.determinize := by
  by_cases hstart : A.reached [] = ∅
  · -- The result is one state without edges then, whatever the automaton was.
    rw [determinize_eq_of_reached_nil hA hstart]
    decide +kernel
  · exact determinize_congr hA.determinize hA (fun _ _ => reached_determinize_eq_iff hA hstart)
      (fun _ => reached_determinize_eq_empty_iff hA hstart) (language_determinize hA)

theorem determinize_determinize_branching : branching.WellFormed ∧
    branching.determinize.determinize = branching.determinize :=
  ⟨by decide +kernel, determinize_determinize (by decide +kernel)⟩

end Automaton

end FiniteState
