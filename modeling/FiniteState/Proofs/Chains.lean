import FiniteState.Proofs.Minimization
import FiniteState.Proofs.Numbering

/-!
# Chains

The smallest automaton of a single word is its chain: a state for each place of the word, in order,
with an edge from each to the next, and the last of them final.

A state of the chain is the number of characters that have been read, so a word leads to its own
length if the chain's word begins with it, and nowhere otherwise. The subset construction therefore
discovers one state after the other, each as a set of its own, and gives them the numbers that they
have. Minimization comes to the same result from any automaton, because two words that the word of
the chain begins with can be completed in different ways only.

## Main definitions

* `Automaton.chain`: The chain of a word.

## Theorems

* `Automaton.reached_chain`: A word that the chain's word begins with leads to its length.
* `Automaton.language_chain`: The chain accepts its word and no other.
* `Automaton.minimize_eq_determinize`: Where different states can be told apart by what can be read
  from them, and something can be read from each, there is nothing to merge.
* `Automaton.determinize_chain`: The subset construction leaves a chain as it is.
* `Automaton.minimize_eq_chain`: An automaton of a single word is minimized to its chain.
-/

namespace FiniteState

namespace Automaton

variable {A B : Automaton} {word u v : List Char} {s t : Nat} {c : Char}

/-! ### Paths along a chain -/

/-- The states `0, …, word.length` in a row, with an edge from each to the next for each character
    of the word. The last state is final. -/
def chain (word : List Char) : Automaton where
  size := word.length + 1
  starting := .ofList [0]
  final := .ofList [word.length]
  edges := .ofList (word.zipIdx.map fun entry => Edge.mk entry.2 (entry.2 + 1) (some entry.1))

theorem mem_edges_chain {label : Option Char} :
    ⟨s, t, label⟩ ∈ (chain word).edges ↔ ∃ c, word[s]? = some c ∧ t = s + 1 ∧ label = some c := by
  simp only [chain, Edge.mem_ofList, List.mem_map, Prod.exists, List.mk_mem_zipIdx_iff_getElem?,
    Edge.mk.injEq]
  constructor
  · intro h
    rcases h with ⟨c, i, hc, rfl, rfl, rfl⟩
    exact ⟨c, hc, rfl, rfl⟩
  · intro h
    rcases h with ⟨c, hc, rfl, rfl⟩
    exact ⟨c, s, hc, rfl, rfl, rfl⟩

theorem wellFormed_chain (hword : ∀ c ∈ word, isSymbol c = true) : (chain word).WellFormed where
  starting_lt := by simp [chain]
  final_lt := by simp [chain]
  source_lt := by
    rintro ⟨s, t, label⟩ he
    rcases mem_edges_chain.1 he with ⟨c, hc, rfl, rfl⟩
    -- An edge carries a character of the word, so its source is one of the places.
    have hlt := (List.getElem?_eq_some_iff.1 hc).1
    change s < word.length + 1
    omega
  target_lt := by
    rintro ⟨s, t, label⟩ he
    rcases mem_edges_chain.1 he with ⟨c, hc, rfl, rfl⟩
    exact Nat.succ_lt_succ (List.getElem?_eq_some_iff.1 hc).1
  isSymbol_of_label := by
    rintro ⟨s, t, label⟩ he d hd
    rcases mem_edges_chain.1 he with ⟨c, hc, rfl, rfl⟩
    obtain rfl : c = d := Option.some.inj hd
    exact hword c (List.mem_of_getElem? hc)

theorem isDeterministic_chain (word : List Char) : (chain word).isDeterministic = true := by
  rw [isDeterministic_eq_true_iff]
  refine ⟨by simp [chain], ?_, ?_⟩
  · rintro ⟨s, t, label⟩ he
    rcases mem_edges_chain.1 he with ⟨c, -, -, rfl⟩
    exact Option.some_ne_none c
  · rintro ⟨s, t, label⟩ he ⟨s', t', label'⟩ hf hsource hlabel
    rcases mem_edges_chain.1 he with ⟨c, -, rfl, -⟩
    rcases mem_edges_chain.1 hf with ⟨d, -, rfl, -⟩
    -- The target of an edge is the state after its source, whatever the label is.
    obtain rfl : s = s' := hsource
    obtain rfl : label = label' := hlabel
    rfl

theorem cons_prefix_drop_iff :
    c :: u <+: word.drop s ↔ word[s]? = some c ∧ u <+: word.drop (s + 1) := by
  by_cases hs : s < word.length
  · rw [List.drop_eq_getElem_cons hs, List.cons_prefix_cons, List.getElem?_eq_getElem hs,
      Option.some.injEq, eq_comm]
  · rw [List.drop_of_length_le (Nat.le_of_not_lt hs), List.getElem?_eq_none (Nat.le_of_not_lt hs)]
    simp

@[simp] theorem mem_starting_chain : s ∈ (chain word).starting ↔ s = 0 := by
  simp [chain]

@[simp] theorem mem_final_chain : s ∈ (chain word).final ↔ s = word.length := by
  simp [chain]

/-- A path along a chain reads what stands in the word behind its first state. -/
theorem path_chain :
    (chain word).Path s u t ↔ s + u.length = t ∧ u <+: word.drop s := by
  -- There are no epsilon edges, so that the first edge of a path carries the first character.
  have hdet := isDeterministic_chain word
  induction u generalizing s with
  | nil =>
    constructor
    · intro h
      exact ⟨(h.eq_of_nil hdet).symm, List.nil_prefix⟩
    · intro h
      obtain rfl : s = t := h.1
      exact FiniteState.Path.nil s
  | cons c u ih =>
    rw [cons_prefix_drop_iff, List.length_cons]
    constructor
    · intro h
      rcases h.exists_edge hdet with ⟨k, hedge, hrest⟩
      rcases mem_edges_chain.1 hedge with ⟨d, hd, rfl, hcd⟩
      obtain rfl := Option.some.inj hcd
      rcases ih.1 hrest with ⟨hlength, hbegins⟩
      exact ⟨by omega, hd, hbegins⟩
    · intro h
      rcases h with ⟨hlength, hc, hbegins⟩
      have hedge : ⟨s, s + 1, some c⟩ ∈ (chain word).edges := mem_edges_chain.2 ⟨c, hc, rfl, rfl⟩
      exact (path_of_edge hedge).append (ih.2 ⟨by omega, hbegins⟩)

/-! ### Words that lead along a chain -/

section Reached

variable (hword : ∀ c ∈ word, isSymbol c = true)
include hword

theorem mem_reached_chain : t ∈ (chain word).reached u ↔ u.length = t ∧ u <+: word := by
  rw [mem_reached (wellFormed_chain hword)]
  simp [path_chain]

/-- A word that the chain's word begins with leads to its length. -/
theorem reached_chain (h : u <+: word) : (chain word).reached u = .ofList [u.length] := by
  refine StateSet.ext_mem fun t => ?_
  rw [mem_reached_chain hword]
  simp [h, eq_comm]

/-- Any other word leads nowhere. -/
theorem reached_chain_ne_empty_iff : (chain word).reached u ≠ ∅ ↔ u <+: word := by
  constructor
  · intro h
    -- No state satisfies the description of what is reached, so the set is empty.
    by_contra hbegins
    refine h (StateSet.ext_mem fun t => ?_)
    rw [mem_reached_chain hword]
    simp [hbegins]
  · intro h hempty
    have hmem := (mem_reached_chain hword).2 ⟨rfl, h⟩
    rw [hempty] at hmem
    exact StateSet.not_mem_empty _ hmem

theorem mem_language_chain : u ∈ (chain word).language ↔ u = word := by
  rw [mem_language_iff_reached (wellFormed_chain hword)]
  simp only [mem_reached_chain hword]
  constructor
  · intro h
    rcases h with ⟨t, ⟨rfl, hbegins⟩, ht⟩
    exact hbegins.eq_of_length (mem_final_chain.1 ht)
  · rintro rfl
    exact ⟨u.length, ⟨rfl, List.prefix_rfl⟩, mem_final_chain.2 rfl⟩

/-! ### Determinizing a chain -/

/-- The symbol of a place leads on from its state, and no other does. -/
theorem mem_live_chain (hs : s ≤ word.length) :
    c ∈ (chain word).live (.ofList [s]) ↔ word[s]? = some c := by
  have htake : (word.take s).length = s := List.length_take_of_le hs
  have hreached := reached_chain hword (List.take_prefix s word)
  rw [htake] at hreached
  rw [mem_live (wellFormed_chain hword), ← hreached, ← reached_snoc,
    reached_chain_ne_empty_iff hword]
  nth_rewrite 2 [← List.take_append_drop s word]
  rw [List.prefix_append_right_inj, cons_prefix_drop_iff]
  simp

theorem live_chain (hs : s ≤ word.length) :
    (chain word).live (.ofList [s]) = word[s]?.toList := by
  have hnodup : ((chain word).live (.ofList [s])).Nodup := by
    refine (pairwise_live_lt _ _).imp ?_
    rintro c _ hlt rfl
    exact Char.lt_irrefl c hlt
  -- At most one symbol leads on. The list has no duplicates, so its members determine it.
  cases hc : word[s]? with
  | none =>
    refine List.eq_nil_iff_forall_not_mem.2 fun d hd => ?_
    rw [mem_live_chain hword hs, hc] at hd
    exact absurd hd (by simp)
  | some c =>
    refine List.perm_singleton.1 ((List.perm_ext_iff_of_nodup hnodup (List.nodup_singleton c)).2 ?_)
    intro d
    rw [mem_live_chain hword hs, hc, List.mem_singleton, Option.some.injEq, eq_comm]

/-- A state of a chain is followed by the next one, and the last by none. -/
theorem successors_chain (hs : s ≤ word.length) :
    (chain word).successors (.ofList [s])
      = if s < word.length then [.ofList [s + 1]] else [] := by
  rw [successors, live_chain hword hs]
  split
  next hlt =>
    have hbegins : word.take (s + 1) <+: word := List.take_prefix _ _
    -- The set that follows is what the word up to there, with one character more, leads to.
    have hreached := reached_chain hword hbegins
    rw [List.take_add_one, List.getElem?_eq_getElem hlt, Option.toList_some, reached_snoc,
      reached_chain hword (List.take_prefix s word), List.length_append, List.length_singleton,
      List.length_take_of_le hs] at hreached
    rw [List.getElem?_eq_getElem hlt, Option.toList_some, List.map_singleton, hreached]
  next hge => rw [List.getElem?_eq_none (Nat.le_of_not_lt hge), Option.toList_none, List.map_nil]

/-- The sets that hold one of the first states each. -/
def singletons (count : Nat) : List StateSet :=
  (List.range count).map fun s => .ofList [s]

omit hword in
theorem singletons_succ (count : Nat) :
    singletons (count + 1) = singletons count ++ [.ofList [count]] := by
  rw [singletons, List.range_succ, List.map_append, List.map_singleton, singletons]

omit hword in
theorem getElem?_singletons {count : Nat} :
    (singletons count)[s]? = if s < count then some (.ofList [s]) else none := by
  rw [singletons, List.getElem?_map]
  split
  next h => rw [List.getElem?_range h, Option.map_some]
  next h => rw [List.getElem?_eq_none (by simpa using h), Option.map_none]

/-- The states of a chain are discovered one after the other. -/
theorem discovers_chain {more : Nat} (hmore : s + more = word.length) :
    Search.Discovers (chain word).successors s (singletons (s + 1))
      (singletons (word.length + 1)) := by
  induction more generalizing s with
  | zero =>
    obtain rfl : s = word.length := hmore
    refine .round (x := .ofList [word.length]) (by simp [getElem?_singletons]) ?_
    rw [successors_chain hword le_rfl, if_neg (lt_irrefl _)]
    exact .stop (by simp [getElem?_singletons])
  | succ more ih =>
    have hlt : s < word.length := by omega
    refine .round (x := .ofList [s]) (by simp [getElem?_singletons]) ?_
    -- The next state is new, since those discovered so far have smaller numbers.
    have hnew : StateSet.ofList [s + 1] ∉ singletons (s + 1) := by
      intro hmem
      rcases List.mem_map.1 hmem with ⟨t, ht, hsame⟩
      have hst : s + 1 ∈ StateSet.ofList [t] := by
        rw [hsame]
        simp
      have hst' : s + 1 = t := by simpa using hst
      have hlt' := List.mem_range.1 ht
      omega
    rw [successors_chain hword hlt.le, if_pos hlt, List.foldl_cons, List.foldl_nil, Search.addNew,
      if_neg hnew, ← singletons_succ]
    exact ih (by omega)

theorem subsets_chain : (chain word).subsets = singletons (word.length + 1) := by
  have hdiscovers := discovers_chain hword (Nat.zero_add word.length)
  have hstart : (chain word).simulation.close (chain word).starting = .ofList [0] :=
    reached_chain hword List.nil_prefix
  refine ((discovers_subsets_iff (wellFormed_chain hword)).1 ?_).symm
  rw [map_snd_row, hstart]
  exact hdiscovers

/-- The number of a word is its length. -/
theorem index_chain (h : u <+: word) : (chain word).index u = u.length := by
  refine index_eq_of_getElem? ?_
  rw [subsets_chain hword, reached_chain hword h, getElem?_singletons,
    if_pos (Nat.lt_succ_of_le h.length_le)]

/-- The subset construction leaves a chain as it is, state numbers included. -/
theorem determinize_chain : (chain word).determinize = chain word := by
  have hwell := wellFormed_chain hword
  refine ext_edges ?_ rfl (StateSet.ext_mem fun s => ?_) ?_
  · rw [size_determinize, subsets_chain hword]
    simp [singletons, chain]
  · rw [mem_final_determinize hwell, mem_final_chain]
    simp only [mem_language_chain hword, exists_eq_left]
    rw [index_chain hword List.prefix_rfl, eq_comm]
  · rintro ⟨s, t, label⟩
    rw [mem_edges_determinize hwell, mem_edges_chain]
    simp only [reached_chain_ne_empty_iff hword, Edge.mk.injEq]
    constructor
    · intro h
      rcases h with ⟨u, c, hbegins, rfl, rfl, rfl⟩
      -- The word that leads to an edge is what stands before it, so its length is the number of the
      -- state.
      have hu : u <+: word := (List.prefix_append u [c]).trans hbegins
      rw [index_chain hword hu, index_chain hword hbegins]
      refine ⟨c, ?_, by simp, rfl⟩
      rcases hbegins with ⟨rest, hrest⟩
      rw [← hrest]
      simp
    · intro h
      rcases h with ⟨c, hc, rfl, rfl⟩
      -- Conversely, what stands before a character leads to the edge with that character.
      have hs := (List.getElem?_eq_some_iff.1 hc).1
      have hbegins : word.take s ++ [c] <+: word := by
        have htake := List.take_prefix (s + 1) word
        rwa [List.take_add_one, hc, Option.toList_some] at htake
      refine ⟨word.take s, c, hbegins, ?_, ?_, rfl⟩
      · rw [index_chain hword (List.take_prefix s word), List.length_take_of_le hs.le]
      · rw [index_chain hword hbegins, List.length_append, List.length_take_of_le hs.le,
          List.length_singleton]

end Reached

/-! ### Minimizing to a chain -/

/-- If something can be read from each set of states that a word leads to, and from different sets
    different things, then minimization merges nothing that determinization keeps apart. -/
theorem minimize_eq_determinize (hA : A.WellFormed) (hB : B.WellFormed)
    (hlanguage : A.language = B.language)
    (hproductive : ∀ u, B.reached u ≠ ∅ → ∃ v, u ++ v ∈ B.language)
    (hdistinct : ∀ u v, B.reached u ≠ ∅ →
      B.language.leftQuotient u = B.language.leftQuotient v → B.reached u = B.reached v) :
    A.minimize = B.determinize := by
  -- Nothing can be completed behind a word exactly if the word leads nowhere.
  have hempty : ∀ u, B.language.leftQuotient u = 0 ↔ B.reached u = ∅ := by
    intro u
    constructor
    · intro h
      by_contra hne
      rcases hproductive u hne with ⟨v, hv⟩
      rw [← Language.mem_leftQuotient, h] at hv
      exact Language.notMem_zero v hv
    · intro h
      rw [leftQuotient_language hB, h, languageFrom_empty]
  rw [minimize_eq]
  -- It is enough that both automata keep the same words apart, and accept the same.
  refine determinize_congr hA.codeterminize hB (fun u v => ?_) (fun u => ?_) ?_
  · rw [reached_codeterminize_eq_iff hA, hlanguage]
    constructor
    · intro h
      by_cases hu : B.reached u = ∅
      · rw [hu, (hempty v).1 (h ▸ (hempty u).2 hu)]
      · exact hdistinct u v hu h
    · intro h
      rw [leftQuotient_language hB, leftQuotient_language hB, h]
  · rw [reached_codeterminize_eq_empty_iff hA, hlanguage, hempty]
  · rw [language_codeterminize hA, hlanguage]

/-- An automaton that accepts one word and no other is minimized to the chain of that word. -/
theorem minimize_eq_chain (hA : A.WellFormed) (hword : ∀ c ∈ word, isSymbol c = true)
    (hlanguage : ∀ other, other ∈ A.language ↔ other = word) : A.minimize = chain word := by
  have hchain : ∀ u v, v ∈ (chain word).language.leftQuotient u ↔ u ++ v = word := by
    intro u v
    rw [Language.mem_leftQuotient, mem_language_chain hword]
  rw [← determinize_chain hword]
  refine minimize_eq_determinize hA (wellFormed_chain hword) ?_ (fun u hu => ?_) fun u v hu h => ?_
  · ext other
    rw [hlanguage, mem_language_chain hword]
  · rcases (reached_chain_ne_empty_iff hword).1 hu with ⟨v, hv⟩
    exact ⟨v, (mem_language_chain hword).2 hv⟩
  · -- What completes the one completes the other, so both are the word without that.
    rcases (reached_chain_ne_empty_iff hword).1 hu with ⟨w, hw⟩
    have hw' := (hchain u w).2 hw
    rw [h, hchain, ← hw, List.append_cancel_right_eq] at hw'
    rw [hw']

end Automaton

end FiniteState
