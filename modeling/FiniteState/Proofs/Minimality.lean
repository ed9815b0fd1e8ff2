import FiniteState.Proofs.Minimization

/-!
# Minimal and Trimmed

What minimization promises of its result: no deterministic automaton for the same words has fewer
states, every state can be reached, and every state leads on to acceptance, unless there is nothing
to accept.

The count of states is the number of left quotients that hold a word. A language without words has
no such quotient, but the result still has its starting state, hence the maximum with one.

## Main definitions

* `Automaton.MinimalFor`: An automaton is minimal and trimmed for the words of another.

## Theorems

* `Automaton.path_minimize_index`: Every state of the result is the state of a word.
* `Automaton.mem_alphabet_minimize`: Exactly the symbols of accepted words are left.
* `Automaton.minimize_minimalFor`: The result of minimization is minimal and trimmed.
-/

namespace FiniteState

namespace Automaton

variable {A : Automaton}

/-- An automaton is the smallest deterministic one for the words that `A` accepts, and has no state
    and no symbol that is of no use. -/
structure MinimalFor (A M : Automaton) : Prop where
  accepts_eq : ∀ word, M.accepts word = A.accepts word
  isDeterministic : M.isDeterministic = true
  starting_eq : M.starting = .ofList [0]
  finite_quotients : (quotients A.accepted).Finite
  /-- There is one state for each left quotient that holds a word, and at least one. -/
  size_eq : M.size = max 1 (quotients A.accepted).ncard
  /-- No other deterministic automaton for these words has fewer states. -/
  size_le : ∀ B : Automaton, B.WellFormed → 0 < B.size → B.isDeterministic = true →
    (∀ word, B.accepts word = A.accepts word) → M.size ≤ B.size
  /-- Every state is reached from the starting state. -/
  reachable : ∀ s < M.size, ∃ word, M.Path 0 word s
  /-- Every state leads on to a final state, if any word is accepted. -/
  productive : (∃ word, A.accepts word = true) →
    ∀ s < M.size, ∃ word, ∃ t ∈ M.final, M.Path s word t
  /-- If no word is accepted, one state without edges is left. -/
  eq_of_not_accepts : (∀ word, A.accepts word = false) → M = ⟨1, .ofList [0], ∅, ∅⟩
  /-- Exactly the symbols of accepted words are left. -/
  mem_alphabet : ∀ c, c ∈ M.alphabet ↔ ∃ word, A.accepts word = true ∧ c ∈ word

/-- Every state of the minimized automaton is the state of a word. -/
theorem path_minimize_index (hA : A.WellFormed) {s : Nat} (hs : s < A.minimize.size) :
    ∃ word, A.codeterminize.Alive word ∧ A.codeterminize.index word = s ∧
      A.minimize.Path 0 word s := by
  rcases exists_index_eq hA.codeterminize hs with ⟨word, hword, hindex, _⟩
  exact ⟨word, hword, hindex, (path_determinize_zero hA.codeterminize).2 ⟨hindex, hword⟩⟩

theorem mem_alphabet_minimize (hA : A.WellFormed) {c : Char} :
    c ∈ A.minimize.alphabet ↔ ∃ word ∈ A.language, c ∈ word := by
  have hX := hA.codeterminize
  rw [Automaton.mem_alphabet, minimize_eq]
  constructor
  · intro h
    rcases h with ⟨e, he, hlabel⟩
    rcases (mem_edges_determinize hX).1 he with ⟨u, d, hne, rfl⟩
    obtain rfl : d = c := Option.some.inj hlabel
    -- What is reached there can be completed to an accepted word.
    rcases exists_mem_of_reached_codeterminize hA hne with ⟨v, hv⟩
    exact ⟨u ++ [d] ++ v, hv, by simp⟩
  · intro h
    rcases h with ⟨word, hword, hc⟩
    rcases List.append_of_mem hc with ⟨u, v, rfl⟩
    -- The word is cut behind the symbol, and what is read up to there leads somewhere.
    rw [List.append_cons, ← language_codeterminize hA] at hword
    have hne := reached_append_ne_empty (reached_ne_empty_of_mem_language hX hword)
    exact ⟨_, (mem_edges_determinize hX).2 ⟨u, c, hne, rfl⟩, rfl⟩

/-- The result of minimization is deterministic, minimal and trimmed. -/
theorem minimize_minimalFor (hA : A.WellFormed) : A.MinimalFor A.minimize := by
  have haccepted : A.accepted = A.language := accepted_eq_language hA
  have hiff : ∀ word, A.accepts word = true ↔ word ∈ A.language := fun _ => accepts_eq_true_iff hA
  have hsize := size_minimize hA
  rw [← haccepted] at hsize
  refine ⟨(accepts_eq_iff hA.minimize hA).2 (language_minimize hA),
    isDeterministic_determinize hA.codeterminize, rfl, hsize.1, hsize.2, ?_, ?_, ?_, ?_, ?_⟩
  -- A deterministic automaton for these words has a state for each of their quotients.
  · intro B hB hpos hdet hsame
    have hle := ncard_quotients_le hB hdet
    rw [(accepts_eq_iff hB hA).1 hsame, ← haccepted] at hle
    rw [hsize.2]
    omega
  · intro s hs
    rcases path_minimize_index hA hs with ⟨word, _, _, hpath⟩
    exact ⟨word, hpath⟩
  -- The word of a state can be completed, and what completes it is read from there.
  · rintro ⟨accepted, haccepts⟩ s hs
    rcases path_minimize_index hA hs with ⟨u, hu, rfl, _⟩
    rcases exists_mem_of_alive hA ((hiff accepted).1 haccepts) hu with ⟨v, hv⟩
    rw [← language_codeterminize hA] at hv
    exact ⟨v, (exists_path_final_determinize hA.codeterminize hu).2 hv⟩
  · intro hnone
    refine minimize_eq_of_language_eq_zero hA ?_
    ext word
    rw [← hiff, hnone]
    exact ⟨fun h => absurd h (by decide), fun h => absurd h (Language.notMem_zero word)⟩
  · intro c
    rw [mem_alphabet_minimize hA]
    simp only [hiff]

/-- An automaton for `b` once or more with a cycle of epsilon edges, a symbol that no accepted word
    holds, a state that leads nowhere and one that nothing leads to. -/
def redundant : Automaton where
  size := 5
  starting := .ofList [0]
  final := .ofList [2]
  edges := .ofList [Edge.epsilon 0 1, Edge.epsilon 1 0, ⟨1, 2, some 'b'⟩, ⟨2, 2, some 'b'⟩,
    ⟨1, 3, some 'a'⟩, ⟨4, 2, some 'c'⟩]

theorem minimize_redundant_minimalFor :
    redundant.WellFormed ∧ redundant.MinimalFor redundant.minimize :=
  ⟨by decide +kernel, minimize_minimalFor (by decide +kernel)⟩

end Automaton

end FiniteState
