import FiniteState.Automaton.Subset
import FiniteState.Proofs.Acceptance
import FiniteState.Proofs.Discovery
import Mathlib.Data.List.Sort

/-!
# Discovered Sets

The subset construction discovers exactly the sets of states that words lead to.

Every discovered set is `A.reached word` for some word, and a word that leads to states leads to a
discovered set. So instead of the numbers that the construction hands out, later statements speak
of `A.index word`, the number of the set that a word leads to.

The number of rounds is no obstacle. There are no more sets of states than rounds, so everything
that has been discovered is looked at, and any larger number of rounds gives the same list.

## Main definitions

* `Automaton.live`: The symbols that lead somewhere from a set of states.
* `Automaton.successors`: The sets that those symbols lead to.
* `Automaton.Alive`: The words that have a state in the determinized automaton.
* `Automaton.index`: The state of a word.

## Theorems

* `Automaton.live_eq_live`: The living symbols do not depend on the alphabet.
* `Automaton.subsets_eq_discover`: Every bound that is large enough discovers the same sets.
* `Automaton.discovers_subsets_iff`: Without a bound, the discovery ends with the same sets.
* `Automaton.mem_subsets`: Exactly the sets that living words lead to are discovered.
* `Automaton.length_subsets_le`: There are no more of them than sets that hold a state, or one.
* `Automaton.index_eq_index_iff`: Living words share a number if they lead to the same set.
-/

namespace FiniteState

namespace Automaton

/-! ### Rows -/

/-- The symbols that lead somewhere from a set of states, in ascending order. -/
def live (A : Automaton) (states : StateSet) : List Char :=
  A.alphabet.toList.filter fun c => !(A.next states c).isEmpty

/-- The sets that symbols lead to from a set of states, sets without states left out. -/
def successors (A : Automaton) (states : StateSet) : List StateSet :=
  (A.live states).map (A.next states)

theorem row_simulation (A : Automaton) (states : StateSet) :
    A.simulation.row states = (A.live states).map fun c => (c, A.next states c) := by
  rw [Simulation.row, simulation, List.map_map, List.filter_map]
  rfl

theorem mem_live {A : Automaton} (hA : A.WellFormed) {states : StateSet} {c : Char} :
    c ∈ A.live states ↔ A.next states c ≠ ∅ := by
  rw [live, List.mem_filter, Std.ExtTreeSet.mem_toList, Bool.not_eq_true', ← Bool.not_eq_true,
    StateSet.isEmpty_eq_true_iff]
  constructor
  · exact fun h => h.2
  · intro h
    refine ⟨?_, h⟩
    -- A symbol that stands on no edge leads nowhere.
    by_contra hc
    exact h (next_of_not_mem_alphabet hA hc states)

theorem pairwise_live (A : Automaton) (states : StateSet) :
    (A.live states).Pairwise fun c d => compare c d = .lt :=
  A.alphabet.ordered_toList.filter _

/-- Sets that the same symbols lead on from have the same living symbols in the same order, even
    in automata with different alphabets. -/
theorem live_eq_live {A B : Automaton} (hA : A.WellFormed) (hB : B.WellFormed)
    {states others : StateSet}
    (h : ∀ c, A.next states c = ∅ ↔ B.next others c = ∅) : A.live states = B.live others := by
  have hself : ∀ c : Char, compare c c ≠ .lt := by
    intro c hcc
    have heq : compare c c = .eq := Std.ReflCmp.compare_self
    exact absurd (heq.symm.trans hcc) (by decide)
  have hlt : ∀ c d : Char, compare c d = .lt → c ≠ d := by
    rintro c _ hcd rfl
    exact hself c hcd
  -- Both lists are in ascending order, so it is enough that they hold the same symbols.
  have hperm : (A.live states).Perm (B.live others) := by
    rw [List.perm_ext_iff_of_nodup ((A.pairwise_live states).imp (hlt _ _))
      ((B.pairwise_live others).imp (hlt _ _))]
    intro c
    rw [mem_live hA, mem_live hB, ne_eq, ne_eq, h]
  refine hperm.eq_of_pairwise ?_ (A.pairwise_live states) (B.pairwise_live others)
  intro c d _ _ hcd hdc
  exact absurd hdc (Std.OrientedCmp.not_lt_of_lt hcd)

/-! ### Discovered sets -/

/-- A word has a state in the determinized automaton if it leads to states, or is empty. -/
def Alive (A : Automaton) (word : List Char) : Prop :=
  word = [] ∨ A.reached word ≠ ∅

/-- The number of the set that a word leads to. -/
def index (A : Automaton) (word : List Char) : Nat :=
  A.subsets.idxOf (A.reached word)

theorem reached_append_ne_empty {A : Automaton} {u v : List Char}
    (h : A.reached (u ++ v) ≠ ∅) : A.reached u ≠ ∅ := by
  intro hu
  rw [reached_append, hu, foldl_next_empty] at h
  exact h rfl

/-- The construction goes from a set to the sets that symbols lead to. -/
theorem map_snd_row (A : Automaton) :
    (fun states => (A.simulation.row states).map Prod.snd) = A.successors := by
  funext states
  rw [row_simulation, List.map_map]
  rfl

theorem subsets_eq (A : Automaton) :
    A.subsets = Search.discover A.successors (2 ^ A.size) 0 [A.reached []] := by
  rw [subsets, Simulation.subsets, map_snd_row, Nat.one_shiftLeft]
  rfl

theorem nodup_subsets (A : Automaton) : A.subsets.Nodup := by
  rw [subsets_eq]
  exact Search.nodup_discover _ _ _ (List.nodup_singleton _)

theorem exists_reached_of_mem_discover {A : Automaton} (hA : A.WellFormed) {rounds : Nat}
    {states : StateSet} (h : states ∈ Search.discover A.successors rounds 0 [A.reached []]) :
    ∃ word, A.Alive word ∧ A.reached word = states := by
  refine Search.discover_induction (fun states => ∃ word, A.Alive word ∧ A.reached word = states)
    ?_ ?_ states h
  · intro states hstates
    exact ⟨[], Or.inl rfl, (List.mem_singleton.1 hstates).symm⟩
  · rintro _ ⟨word, _, rfl⟩ states hstates
    -- A successor is reached by one symbol more, and it is not empty.
    rcases List.mem_map.1 hstates with ⟨c, hc, rfl⟩
    refine ⟨word ++ [c], Or.inr ?_, A.reached_snoc word c⟩
    rw [reached_snoc]
    exact (mem_live hA).1 hc

/-- There are no more sets of states below a bound than numbers with that many binary digits. -/
theorem length_le_of_nodup {sets : List StateSet} (hnodup : sets.Nodup) {bound : Nat}
    (hlt : ∀ states ∈ sets, ∀ s ∈ states, s < bound) : sets.length ≤ 2 ^ bound := by
  have hinj : Function.Injective StateSet.bits := by
    rintro ⟨m⟩ ⟨n⟩ rfl
    rfl
  have hsub : sets.map StateSet.bits ⊆ List.range (2 ^ bound) := by
    intro bits hbits
    rcases List.mem_map.1 hbits with ⟨states, hstates, rfl⟩
    rw [List.mem_range]
    -- A bit at or above the bound would be a state that is not below it.
    refine Nat.lt_pow_two_of_testBit _ fun s hs => ?_
    by_contra hbit
    rw [Bool.not_eq_false] at hbit
    have hbound := hlt states hstates s hbit
    omega
  have hle := ((hnodup.map hinj).subperm hsub).length_le
  rwa [List.length_map, List.length_range] at hle

/-- There are no more sets among the states than the construction has rounds. -/
theorem length_discover_le {A : Automaton} (hA : A.WellFormed) (rounds : Nat) :
    (Search.discover A.successors rounds 0 [A.reached []]).length ≤ 2 ^ A.size := by
  refine length_le_of_nodup (Search.nodup_discover _ _ _ (List.nodup_singleton _)) ?_
  intro states hstates s hs
  rcases exists_reached_of_mem_discover hA hstates with ⟨word, _, rfl⟩
  exact reached_lt hA hs

/-- Every bound that is large enough discovers the same sets. -/
theorem subsets_eq_discover {A : Automaton} (hA : A.WellFormed) (more : Nat) :
    A.subsets = Search.discover A.successors (2 ^ A.size + more) 0 [A.reached []] := by
  rw [subsets_eq, Search.discover_stable]
  have hle := length_discover_le hA (2 ^ A.size)
  omega

/-- The construction comes to an end: going on until every set has been looked at yields the
    discovered sets and no others. -/
theorem discovers_subsets_iff {A : Automaton} (hA : A.WellFormed) {found : List StateSet} :
    Search.Discovers (fun states => (A.simulation.row states).map Prod.snd) 0
      [A.simulation.close A.starting] found ↔ found = A.subsets := by
  rw [map_snd_row, subsets_eq]
  refine Search.discovers_iff ?_
  rw [Nat.zero_add]
  exact length_discover_le hA (2 ^ A.size)

theorem getElem?_subsets_zero (A : Automaton) : A.subsets[0]? = some (A.reached []) := by
  rw [subsets_eq]
  exact Search.getElem?_of_prefix (Search.prefix_discover _ _ _ _) rfl

theorem length_subsets_pos (A : Automaton) : 0 < A.subsets.length :=
  List.length_pos_of_mem (List.mem_of_getElem? A.getElem?_subsets_zero)

/-- The sets that living words lead to are the discovered ones. -/
theorem mem_subsets {A : Automaton} (hA : A.WellFormed) {states : StateSet} :
    states ∈ A.subsets ↔ ∃ word, A.Alive word ∧ A.reached word = states := by
  constructor
  · intro h
    rw [subsets_eq] at h
    exact exists_reached_of_mem_discover hA h
  · intro h
    rcases h with ⟨word, hword, rfl⟩
    induction word using List.reverseRecOn with
    | nil => exact List.mem_of_getElem? A.getElem?_subsets_zero
    | append_singleton word c ih =>
      have hne : A.reached (word ++ [c]) ≠ ∅ :=
        hword.resolve_left (List.append_ne_nil_of_right_ne_nil word (List.cons_ne_nil c []))
      rcases List.mem_iff_getElem?.1 (ih (Or.inr (reached_append_ne_empty hne))) with ⟨i, hi⟩
      have hi' : i < 2 ^ A.size := by
        have hlength := (List.getElem?_eq_some_iff.1 hi).1
        have hle := length_discover_le hA (2 ^ A.size)
        rw [← subsets_eq] at hle
        omega
      -- The set of the shorter word has been looked at, so its successors are known.
      rw [subsets_eq] at hi ⊢
      refine Search.discover_closed (Nat.zero_le i) (by omega) hi _ (List.mem_map.2 ⟨c, ?_, ?_⟩)
      · rwa [mem_live hA, ← reached_snoc]
      · exact (A.reached_snoc word c).symm

/-- If there is no state to begin with, no word leads anywhere. -/
theorem reached_eq_empty {A : Automaton} (h : A.reached [] = ∅) (word : List Char) :
    A.reached word = ∅ := by
  have happend := A.reached_append [] word
  rwa [h, foldl_next_empty] at happend

theorem subsets_eq_of_reached_nil {A : Automaton} (hA : A.WellFormed) (h : A.reached [] = ∅) :
    A.subsets = [∅] := by
  have hall : ∀ states ∈ A.subsets, states = ∅ := by
    intro states hstates
    rcases (mem_subsets hA).1 hstates with ⟨word, _, rfl⟩
    exact reached_eq_empty h word
  -- No set is discovered twice, so the one set is discovered once.
  have hsubsets := List.eq_replicate_of_mem hall
  have hnodup := A.nodup_subsets
  have hpos := A.length_subsets_pos
  rw [hsubsets, List.nodup_replicate] at hnodup
  rw [hsubsets, show A.subsets.length = 1 by omega]
  rfl

/-- There are no more states than sets of states, and the set without states is the only one where
    it is one of them. -/
theorem length_subsets_le {A : Automaton} (hA : A.WellFormed) :
    A.subsets.length ≤ max 1 (2 ^ A.size - 1) := by
  by_cases h : A.reached [] = ∅
  · rw [subsets_eq_of_reached_nil hA h]
    exact Nat.le_max_left _ _
  -- A set is discovered by the empty word or by being reached with something in it.
  · have hempty : ∅ ∉ A.subsets := by
      intro hmem
      rcases (mem_subsets hA).1 hmem with ⟨word, rfl | hword, hreached⟩
      · exact h hreached
      · exact hword hreached
    have hlt : ∀ states ∈ ∅ :: A.subsets, ∀ s ∈ states, s < A.size := by
      refine List.forall_mem_cons.2 ⟨by simp, fun states hstates s hs => ?_⟩
      rcases (mem_subsets hA).1 hstates with ⟨word, _, rfl⟩
      exact reached_lt hA hs
    have hle := length_le_of_nodup (List.nodup_cons.2 ⟨hempty, A.nodup_subsets⟩) hlt
    rw [List.length_cons] at hle
    omega

theorem reached_mem_subsets {A : Automaton} (hA : A.WellFormed) {word : List Char}
    (hword : A.Alive word) : A.reached word ∈ A.subsets :=
  (mem_subsets hA).2 ⟨word, hword, rfl⟩

theorem getElem?_index {A : Automaton} (hA : A.WellFormed) {word : List Char}
    (hword : A.Alive word) : A.subsets[A.index word]? = some (A.reached word) := by
  have hlt := List.idxOf_lt_length_of_mem (reached_mem_subsets hA hword)
  rw [index, List.getElem?_eq_getElem hlt, List.getElem_idxOf]

theorem index_eq_of_getElem? {A : Automaton} {word : List Char} {i : Nat}
    (h : A.subsets[i]? = some (A.reached word)) : A.index word = i := by
  rcases List.getElem?_eq_some_iff.1 h with ⟨hi, hget⟩
  rw [index, ← hget]
  exact A.nodup_subsets.idxOf_getElem i hi

theorem index_nil (A : Automaton) : A.index [] = 0 :=
  index_eq_of_getElem? A.getElem?_subsets_zero

theorem index_lt {A : Automaton} (hA : A.WellFormed) {word : List Char} (hword : A.Alive word) :
    A.index word < A.subsets.length :=
  List.idxOf_lt_length_of_mem (reached_mem_subsets hA hword)

/-- Living words have the same number if they lead to the same set. -/
theorem index_eq_index_iff {A : Automaton} (hA : A.WellFormed) {u v : List Char}
    (hu : A.Alive u) (hv : A.Alive v) : A.index u = A.index v ↔ A.reached u = A.reached v := by
  constructor
  · intro h
    -- Each number is the place of a set, and at a place there is one set.
    have hget := getElem?_index hA hu
    rw [h, getElem?_index hA hv] at hget
    exact (Option.some.inj hget).symm
  · intro h
    rw [index, index, h]

theorem exists_index_eq {A : Automaton} (hA : A.WellFormed) {i : Nat}
    (hi : i < A.subsets.length) :
    ∃ word, A.Alive word ∧ A.index word = i ∧ A.subsets[i] = A.reached word := by
  rcases (mem_subsets hA).1 (List.getElem_mem hi) with ⟨word, hword, hreached⟩
  refine ⟨word, hword, ?_, hreached.symm⟩
  exact index_eq_of_getElem? (by rw [List.getElem?_eq_getElem hi, hreached])

end Automaton

end FiniteState
