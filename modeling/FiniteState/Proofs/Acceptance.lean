import FiniteState.Automaton.Simulation
import FiniteState.Proofs.Closure

/-!
# Acceptance

The simulation agrees with the paths: a word is accepted exactly if a path from a starting state to
a final state spells it.

The middle is `Automaton.reached`, the set of states that an automaton can be in after a word. It is
computed by the same steps as the simulation, but over all characters and without early exits. The
exits change nothing, since a symbol outside the alphabet leads to the set without states, and from
there on every symbol does.

## Main definitions

* `Automaton.next`: The closed set of states that a symbol leads to from a set.
* `Automaton.reached`: The states that an automaton can be in after a word.
* `Automaton.accepted`: The words that the simulation accepts.

## Theorems

* `Automaton.mem_reached`: These are the states that paths spelling the word end in.
* `Automaton.reads_eq`: The early exits of the simulation never change its answer.
* `Automaton.accepts_eq_true_iff`: The accepted words are those of the language.
-/

namespace FiniteState

namespace Automaton

/-- The closed set of states that a symbol leads to from a set of states. -/
def next (A : Automaton) (states : StateSet) (c : Char) : StateSet :=
  A.simulation.step (A.rows (some c)) states

/-- The states that an automaton can be in after a word. -/
def reached (A : Automaton) (word : List Char) : StateSet :=
  word.foldl A.next (A.simulation.close A.starting)

theorem reached_append (A : Automaton) (u v : List Char) :
    A.reached (u ++ v) = v.foldl A.next (A.reached u) := by
  rw [reached, List.foldl_append, reached]

theorem reached_snoc (A : Automaton) (word : List Char) (c : Char) :
    A.reached (word ++ [c]) = A.next (A.reached word) c :=
  A.reached_append word [c]

theorem mem_close {A : Automaton} (hA : A.WellFormed) {states : StateSet} {t : Nat}
    (hstates : ∀ s ∈ states, s < A.size) :
    t ∈ A.simulation.close states ↔ ∃ s ∈ states, A.Path s [] t := by
  rw [Simulation.mem_close]
  constructor
  · intro h
    rcases h with ⟨s, hs, ht⟩
    exact ⟨s, hs, (mem_closures hA (hstates s hs)).1 ht⟩
  · intro h
    rcases h with ⟨s, hs, ht⟩
    exact ⟨s, hs, (mem_closures hA (hstates s hs)).2 ht⟩

theorem mem_next {A : Automaton} (hA : A.WellFormed) {states : StateSet} {c : Char} {t : Nat} :
    t ∈ A.next states c ↔ ∃ s ∈ states, ∃ m, ⟨s, m, some c⟩ ∈ A.edges ∧ A.Path m [] t := by
  have hfollow : ∀ m, m ∈ Simulation.follow (A.rows (some c)) states ↔
      ∃ s ∈ states, ⟨s, m, some c⟩ ∈ A.edges := by
    intro m
    rw [Simulation.mem_follow]
    simp only [mem_getD_rows hA]
  -- Closing looks up a row for each state, so the states that an edge leads to have to exist.
  have hlt : ∀ m ∈ Simulation.follow (A.rows (some c)) states, m < A.size := by
    intro m hm
    rcases (hfollow m).1 hm with ⟨s, _, hedge⟩
    exact hA.target_lt _ hedge
  rw [next, Simulation.step, mem_close hA hlt]
  constructor
  · intro h
    rcases h with ⟨m, hm, hpath⟩
    rcases (hfollow m).1 hm with ⟨s, hs, hedge⟩
    exact ⟨s, hs, m, hedge, hpath⟩
  · intro h
    rcases h with ⟨s, hs, m, hedge, hpath⟩
    exact ⟨m, (hfollow m).2 ⟨s, hs, hedge⟩, hpath⟩

/-- Exactly the states that paths from starting states end in, spelling the word, are reached. -/
theorem mem_reached {A : Automaton} (hA : A.WellFormed) {word : List Char} {t : Nat} :
    t ∈ A.reached word ↔ ∃ s ∈ A.starting, A.Path s word t := by
  -- The simulation reads from the left, so the last symbol is the last step.
  induction word using List.reverseRecOn generalizing t with
  | nil => exact mem_close hA hA.starting_lt
  | append_singleton word c ih =>
    rw [reached_snoc, mem_next hA]
    constructor
    · intro h
      rcases h with ⟨m, hm, k, hedge, hk⟩
      rcases ih.1 hm with ⟨s, hs, hpath⟩
      exact ⟨s, hs, hpath.append ((path_of_edge hedge).append hk)⟩
    · intro h
      rcases h with ⟨s, hs, hpath⟩
      rcases FiniteState.Path.exists_of_append hpath with ⟨m, hword, hc⟩
      rcases FiniteState.Path.exists_of_cons hc with ⟨m', k, hm', hedge, hk⟩
      -- The epsilon edges before the last symbol go with the word before it.
      have hm : A.Path s word m' := by
        have happend := FiniteState.Path.append hword hm'
        rwa [List.append_nil] at happend
      exact ⟨m', ih.2 ⟨s, hs, hm⟩, k, hedge, hk⟩

theorem reached_lt {A : Automaton} (hA : A.WellFormed) {word : List Char} {t : Nat}
    (ht : t ∈ A.reached word) : t < A.size := by
  rcases (mem_reached hA).1 ht with ⟨s, hs, hpath⟩
  exact hpath.lt_size hA (hA.starting_lt s hs)

/-- A word is of the language if a final state is reached. -/
theorem mem_language_iff_reached {A : Automaton} (hA : A.WellFormed) {word : List Char} :
    word ∈ A.language ↔ ∃ t ∈ A.reached word, t ∈ A.final := by
  rw [mem_language]
  constructor
  · intro h
    rcases h with ⟨s, hs, t, ht, hpath⟩
    exact ⟨t, (mem_reached hA).2 ⟨s, hs, hpath⟩, ht⟩
  · intro h
    rcases h with ⟨t, hreached, ht⟩
    rcases (mem_reached hA).1 hreached with ⟨s, hs, hpath⟩
    exact ⟨s, hs, t, ht, hpath⟩

theorem reached_ne_empty_of_mem_language {A : Automaton} (hA : A.WellFormed)
    {word : List Char} (h : word ∈ A.language) : A.reached word ≠ ∅ := by
  intro hempty
  rcases (mem_language_iff_reached hA).1 h with ⟨t, ht, _⟩
  rw [hempty] at ht
  exact StateSet.not_mem_empty t ht

/-- No symbol leads anywhere from the set without states. -/
theorem next_empty (A : Automaton) (c : Char) : A.next ∅ c = ∅ := by
  refine StateSet.ext_mem fun t => ?_
  rw [next, Simulation.step, Simulation.mem_close]
  simp only [Simulation.mem_follow, StateSet.not_mem_empty, false_and, exists_false]

theorem foldl_next_empty (A : Automaton) (word : List Char) : word.foldl A.next ∅ = ∅ := by
  induction word with
  | nil => rfl
  | cons c word ih => rw [List.foldl_cons, next_empty, ih]

/-- Nothing is accepted from the set without states. -/
theorem meets_foldl_next_empty (A : Automaton) (final : StateSet) (word : List Char) :
    (word.foldl A.next ∅).meets final = false := by
  rw [foldl_next_empty, ← Bool.not_eq_true, StateSet.meets_eq_true_iff]
  intro h
  rcases h with ⟨s, hs, -⟩
  exact StateSet.not_mem_empty s hs

/-- A symbol outside the alphabet leads nowhere. -/
theorem next_of_not_mem_alphabet {A : Automaton} (hA : A.WellFormed) {c : Char}
    (hc : c ∉ A.alphabet) (states : StateSet) : A.next states c = ∅ := by
  refine StateSet.ext_mem fun t => ?_
  rw [mem_next hA]
  refine ⟨?_, fun h => absurd h (StateSet.not_mem_empty t)⟩
  intro h
  rcases h with ⟨s, _, m, hedge, _⟩
  exact absurd (mem_alphabet.2 ⟨_, hedge, rfl⟩) hc

theorem lookup_moves (A : Automaton) (c : Char) :
    A.simulation.moves.lookup c = if c ∈ A.alphabet then some (A.rows (some c)) else none := by
  -- The table is made from the alphabet in order, so the induction is on the list of symbols.
  have hmap : ∀ symbols : List Char,
      (symbols.map fun c => (c, A.rows (some c))).lookup c
        = if c ∈ symbols then some (A.rows (some c)) else none := by
    intro symbols
    induction symbols with
    | nil => rfl
    | cons d symbols ih =>
      rw [List.map_cons, List.lookup_cons]
      by_cases hcd : c = d
      · subst hcd
        simp
      · rw [beq_eq_false_iff_ne.2 hcd, ih]
        simp [hcd]
  rw [simulation, hmap]
  simp only [Std.ExtTreeSet.mem_toList]

/-- The early exits of the simulation never change its answer. -/
theorem reads_eq {A : Automaton} (hA : A.WellFormed) (final states : StateSet)
    (word : List Char) :
    A.simulation.reads final states word = (word.foldl A.next states).meets final := by
  induction word generalizing states with
  | nil => rfl
  | cons c word ih =>
    rw [Simulation.reads, lookup_moves, List.foldl_cons]
    -- Both exits are taken where the set without states is reached, which is never left.
    by_cases hc : c ∈ A.alphabet
    · rw [if_pos hc]
      by_cases hnext : (A.next states c).isEmpty = true
      · have hstep : A.next states c = ∅ := StateSet.isEmpty_eq_true_iff.1 hnext
        rw [hstep, meets_foldl_next_empty]
        change (if (A.next states c).isEmpty then false else _) = false
        rw [if_pos hnext]
      · change (if (A.next states c).isEmpty then false else _) = _
        rw [if_neg hnext]
        exact ih _
    · rw [if_neg hc, next_of_not_mem_alphabet hA hc, meets_foldl_next_empty]

/-- The accepted words are those that paths spell. -/
theorem accepts_eq_true_iff {A : Automaton} (hA : A.WellFormed) {word : List Char} :
    A.accepts word = true ↔ word ∈ A.language := by
  rw [accepts, reads_eq hA, StateSet.meets_eq_true_iff, mem_language_iff_reached hA]
  exact Iff.rfl

/-- The words that the simulation accepts. -/
def accepted (A : Automaton) : Language Char :=
  {word | A.accepts word = true}

theorem accepted_eq_language {A : Automaton} (hA : A.WellFormed) : A.accepted = A.language := by
  ext word
  exact accepts_eq_true_iff hA

/-- Automata accept the same words exactly if their languages are equal. -/
theorem accepts_eq_iff {A B : Automaton} (hA : A.WellFormed) (hB : B.WellFormed) :
    (∀ word, A.accepts word = B.accepts word) ↔ A.language = B.language := by
  constructor
  · intro h
    ext word
    rw [← accepts_eq_true_iff hA, ← accepts_eq_true_iff hB, h]
  · intro h word
    rw [Bool.eq_iff_iff, accepts_eq_true_iff hA, accepts_eq_true_iff hB, h]

end Automaton

end FiniteState
