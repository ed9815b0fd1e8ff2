import FiniteState.Proofs.Consistency

/-!
# Early Exits

The simulation gives a word up as soon as it meets a symbol outside the alphabet, or is left
without states. Whether it does so is an option here, and the alphabet that it looks the symbols up
in is whatever has been recorded along a history of the automaton. None of that changes the answer:
a symbol without edges leads to the set without states, which no symbol leads out of. What is left
is the set of states that a word leads to, and a path leads to each of them.

## Main definitions

* `Automaton.Exits`: Which of the early exits are taken.
* `Automaton.follow`: The simulation with a recorded alphabet and some of the early exits.

## Theorems

* `Automaton.follow_eq`: The simulation comes to the same answer with and without the exits.
* `Automaton.accepts_eq_false_of_not_mem`: A character outside the alphabet is in no accepted word.
* `Automaton.accepts_iff_exists_path`: The accepted words are those that paths spell.
-/

namespace FiniteState

namespace Automaton

/-- Which of the early exits are taken: at a symbol outside the alphabet, and at a set without
    states. -/
structure Exits where
  unknown : Bool
  stuck : Bool

/-- Follow a word from a set of states. The alphabet is given apart from the automaton. -/
def follow (A : Automaton) (alphabet : Std.ExtTreeSet Char) (exits : Exits) :
    StateSet → List Char → Bool
  | states, [] => states.meets A.final
  | states, c :: word =>
    if exits.unknown && !alphabet.contains c then false
    else
      let following := A.next states c
      if exits.stuck && following.isEmpty then false
      else follow A alphabet exits following word

variable {A : Automaton} {alphabet : Std.ExtTreeSet Char} {word : List Char}

theorem follow_eq (hA : A.WellFormed) (halphabet : A.Recorded alphabet) (exits : Exits)
    (states : StateSet) (word : List Char) :
    A.follow alphabet exits states word = (word.foldl A.next states).meets A.final := by
  induction word generalizing states with
  | nil => rfl
  | cons c word ih =>
    rw [follow, List.foldl_cons]
    -- Each exit is taken only where nothing is left to follow the word from.
    split
    next hunknown =>
      have hc : c ∉ A.alphabet := by
        rw [← halphabet.eq_alphabet, ← Std.ExtTreeSet.contains_iff_mem, Bool.not_eq_true]
        exact Bool.not_eq_true' _ ▸ (Bool.and_eq_true_iff.1 hunknown).2
      rw [next_of_not_mem_alphabet hA hc, meets_foldl_next_empty]
    next =>
      dsimp only
      split
      next hstuck =>
        have hnone : A.next states c = ∅ :=
          StateSet.isEmpty_eq_true_iff.1 (Bool.and_eq_true_iff.1 hstuck).2
        rw [hnone, meets_foldl_next_empty]
      next => exact ih (A.next states c)

/-- A character outside the alphabet is in no accepted word. -/
theorem accepts_eq_false_of_not_mem (hA : A.WellFormed) {c : Char} (hc : c ∈ word)
    (halphabet : c ∉ A.alphabet) : A.accepts word = false := by
  rcases List.append_of_mem hc with ⟨front, back, rfl⟩
  rw [accepts, reads_eq hA, List.foldl_append, List.foldl_cons,
    next_of_not_mem_alphabet hA halphabet, meets_foldl_next_empty]

/-- A word is accepted exactly if a path from a starting state to a final state spells it. It is not
    if one of its characters is outside the alphabet, and whether the early exits are taken is of no
    consequence. -/
theorem accepts_iff_exists_path (hA : A.WellFormed) (word : List Char) :
    (A.accepts word = true ↔ ∃ s ∈ A.starting, ∃ t ∈ A.final, A.Path s word t) ∧
      ∀ alphabet, A.Recorded alphabet →
        ((∃ c ∈ word, c ∉ alphabet) → A.accepts word = false) ∧
        ∀ exits, A.follow alphabet exits (A.simulation.close A.starting) word = A.accepts word := by
  refine ⟨accepts_eq_true_iff hA, fun alphabet halphabet => ⟨?_, fun exits => ?_⟩⟩
  · intro h
    rcases h with ⟨c, hc, hunknown⟩
    rw [halphabet.eq_alphabet] at hunknown
    exact accepts_eq_false_of_not_mem hA hc hunknown
  · rw [follow_eq hA halphabet, accepts, reads_eq hA]

theorem branching_accepts_iff_exists_path : branching.WellFormed ∧
    branching.accepts "aba".toList = true ∧
    (∃ s ∈ branching.starting, ∃ t ∈ branching.final, branching.Path s "aba".toList t) ∧
    (∃ c ∈ "ad".toList, c ∉ branching.alphabet) ∧ branching.accepts "ad".toList = false ∧
    ∀ exits, branching.follow branching.alphabet exits
      (branching.simulation.close branching.starting) "aba".toList = true := by
  have hwell : branching.WellFormed := by decide +kernel
  have haccepts : branching.accepts "aba".toList = true := by decide +kernel
  -- The second word has a character that stands on no edge.
  have hunknown : ∃ c ∈ "ad".toList, c ∉ branching.alphabet :=
    ⟨'d', by simp, by simp [mem_alphabet, branching, Edge.epsilon]⟩
  have hrecorded := recorded_alphabet branching
  rcases accepts_iff_exists_path hwell "aba".toList with ⟨hpath, hfollow⟩
  rcases accepts_iff_exists_path hwell "ad".toList with ⟨-, hrefused⟩
  refine ⟨hwell, haccepts, hpath.1 haccepts, hunknown, (hrefused _ hrecorded).1 hunknown, ?_⟩
  intro exits
  rw [(hfollow _ hrecorded).2 exits, haccepts]

end Automaton

end FiniteState
