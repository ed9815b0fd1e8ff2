import FiniteState.Proofs.Determinization
import Mathlib.Computability.MyhillNerode
import Mathlib.Data.Set.Card

/-!
# Minimization

Turning around, determinizing, turning back and determinizing again yields the smallest
deterministic automaton, although no step merges states.

`codeterminize` is what the last of these steps starts from. Its states are those of a determinized
automaton, so each of them has a word, and whether it is among the states reached by a word is a
question about the language alone: state `A.reverse.index word` is reached by `u` exactly if `u`
followed by the word backwards is accepted. Hence two words reach the same states exactly if they
have the same left quotient. The last determinization then has one state for each left quotient that
is not empty, numbered in an order that depends on the language only.

## Main definitions

* `Automaton.codeterminize`: Turned around, determinized and turned back.
* `Automaton.languageFrom`: What can be read from a set of states.
* `quotients`: The left quotients of a language that hold a word.

## Theorems

* `Automaton.leftQuotient_language`: The left quotient of a word is what can be read after it.
* `Automaton.reached_codeterminize_eq_iff`: Words reach the same states if their left quotients are
  the same.
* `Automaton.language_minimize`: The language is kept.
* `Automaton.minimize_eq_iff`: Automata with the same language, and only those, are minimized to the
  same automaton.
* `Automaton.size_minimize`: The number of states is the number of left quotients that hold a word.
* `Automaton.ncard_quotients_le`: A deterministic automaton has at least as many states.
-/

namespace FiniteState

/-- The left quotients of a language that hold a word. -/
def quotients (L : Language Char) : Set (Language Char) :=
  {M | (∃ word, word ∈ M) ∧ ∃ u, L.leftQuotient u = M}

namespace Automaton

variable {A B : Automaton}

/-! ### Left quotients and reached states -/

/-- The words that can be read from a set of states to a final state. -/
def languageFrom (A : Automaton) (states : StateSet) : Language Char :=
  {word | ∃ t ∈ word.foldl A.next states, t ∈ A.final}

/-- The left quotient of a word is what can be read from the states that it reaches. -/
theorem leftQuotient_language (hA : A.WellFormed) (u : List Char) :
    A.language.leftQuotient u = A.languageFrom (A.reached u) := by
  ext v
  rw [Language.mem_leftQuotient, mem_language_iff_reached hA, reached_append]
  exact Iff.rfl

theorem languageFrom_empty (A : Automaton) : A.languageFrom ∅ = 0 := by
  ext word
  refine ⟨?_, fun h => absurd h (Language.notMem_zero word)⟩
  intro h
  rcases h with ⟨t, ht, _⟩
  rw [foldl_next_empty] at ht
  exact absurd ht (StateSet.not_mem_empty t)

/-- The automaton turned around, determinized and turned back. -/
def codeterminize (A : Automaton) : Automaton :=
  A.reverse.determinize.reverse

theorem minimize_eq (A : Automaton) : A.minimize = A.codeterminize.determinize := rfl

theorem WellFormed.codeterminize (hA : A.WellFormed) : A.codeterminize.WellFormed :=
  hA.reverse.determinize.reverse

theorem WellFormed.minimize (hA : A.WellFormed) : A.minimize.WellFormed :=
  hA.codeterminize.determinize

theorem language_codeterminize (hA : A.WellFormed) : A.codeterminize.language = A.language := by
  rw [codeterminize, language_reverse, language_determinize hA.reverse, language_reverse,
    Language.reverse_reverse]

theorem language_minimize (hA : A.WellFormed) : A.minimize.language = A.language := by
  rw [minimize_eq, language_determinize hA.codeterminize, language_codeterminize hA]

/-- The state of a word is reached by those words whose left quotient holds the word backwards. -/
theorem index_mem_reached_codeterminize (hA : A.WellFormed) {word u : List Char}
    (hword : A.reverse.Alive word) :
    A.reverse.index word ∈ A.codeterminize.reached u ↔
      word.reverse ∈ A.language.leftQuotient u := by
  have hfinal := exists_path_final_determinize (v := u.reverse) hA.reverse hword
  -- Paths of `codeterminize` are paths of the determinized automaton, followed backwards.
  rw [Language.mem_leftQuotient, mem_reached hA.codeterminize]
  rw [language_reverse, Language.mem_reverse, List.reverse_append, List.reverse_reverse] at hfinal
  rw [← hfinal]
  constructor
  · intro h
    rcases h with ⟨s, hs, hpath⟩
    exact ⟨s, hs, path_reverse.1 hpath⟩
  · intro h
    rcases h with ⟨s, hs, hpath⟩
    exact ⟨s, hs, path_reverse.2 hpath⟩

theorem exists_index_of_mem_reached (hA : A.WellFormed) {u : List Char} {s : Nat}
    (hs : s ∈ A.codeterminize.reached u) :
    ∃ word, A.reverse.Alive word ∧ A.reverse.index word = s := by
  have hlt : s < A.reverse.subsets.length := reached_lt hA.codeterminize hs
  rcases exists_index_eq hA.reverse hlt with ⟨word, hword, hindex, _⟩
  exact ⟨word, hword, hindex⟩

/-- Words reach the same states exactly if their left quotients are the same. -/
theorem reached_codeterminize_eq_iff (hA : A.WellFormed) {u v : List Char} :
    A.codeterminize.reached u = A.codeterminize.reached v ↔
      A.language.leftQuotient u = A.language.leftQuotient v := by
  constructor
  · intro h
    rw [← language_codeterminize hA, leftQuotient_language hA.codeterminize,
      leftQuotient_language hA.codeterminize, h]
  · intro h
    -- Every state has a word, and that word decides from the quotient who reaches the state.
    have hsub : ∀ u v, A.language.leftQuotient u = A.language.leftQuotient v →
        ∀ s ∈ A.codeterminize.reached u, s ∈ A.codeterminize.reached v := by
      intro u v huv s hs
      rcases exists_index_of_mem_reached hA hs with ⟨word, hword, rfl⟩
      rw [index_mem_reached_codeterminize hA hword] at hs ⊢
      rwa [← huv]
    exact StateSet.ext_mem fun s => ⟨hsub u v h s, hsub v u h.symm s⟩

/-- A word reaches no state exactly if its left quotient is empty. -/
theorem reached_codeterminize_eq_empty_iff (hA : A.WellFormed) {u : List Char} :
    A.codeterminize.reached u = ∅ ↔ A.language.leftQuotient u = 0 := by
  constructor
  · intro h
    rw [← language_codeterminize hA, leftQuotient_language hA.codeterminize, h,
      languageFrom_empty]
  · intro h
    refine StateSet.ext_mem fun s => ⟨fun hs => ?_, fun hs => absurd hs (StateSet.not_mem_empty s)⟩
    rcases exists_index_of_mem_reached hA hs with ⟨word, hword, rfl⟩
    rw [index_mem_reached_codeterminize hA hword, h] at hs
    exact absurd hs (Language.notMem_zero _)

/-! ### Canonicity -/

/-- Automata are minimized to the same automaton exactly if they have the same language. -/
theorem minimize_eq_iff (hA : A.WellFormed) (hB : B.WellFormed) :
    A.minimize = B.minimize ↔ A.language = B.language := by
  constructor
  · intro h
    rw [← language_minimize hA, h, language_minimize hB]
  · intro h
    rw [minimize_eq, minimize_eq]
    -- The last step depends on the left quotients only, so on the language.
    refine determinize_congr hA.codeterminize hB.codeterminize (fun u v => ?_) (fun word => ?_) ?_
    · rw [reached_codeterminize_eq_iff hA, reached_codeterminize_eq_iff hB, h]
    · rw [reached_codeterminize_eq_empty_iff hA, reached_codeterminize_eq_empty_iff hB, h]
    · rw [language_codeterminize hA, language_codeterminize hB, h]

theorem minimize_minimize (hA : A.WellFormed) : A.minimize.minimize = A.minimize :=
  (minimize_eq_iff hA.minimize hA).2 (language_minimize hA)

/-! ### The number of states -/

theorem exists_mem_of_reached_codeterminize (hA : A.WellFormed) {u : List Char}
    (hu : A.codeterminize.reached u ≠ ∅) : ∃ v, u ++ v ∈ A.language := by
  by_contra hnone
  refine hu ((reached_codeterminize_eq_empty_iff hA).2 ?_)
  ext v
  rw [Language.mem_leftQuotient]
  exact ⟨fun hv => absurd ⟨v, hv⟩ hnone, fun hv => absurd hv (Language.notMem_zero v)⟩

/-- If a word is accepted at all, every word with a state can be completed to an accepted one. -/
theorem exists_mem_of_alive (hA : A.WellFormed) {accepted : List Char}
    (haccepted : accepted ∈ A.language) {u : List Char} (hu : A.codeterminize.Alive u) :
    ∃ v, u ++ v ∈ A.language := by
  rcases hu with rfl | hu
  · exact ⟨accepted, haccepted⟩
  · exact exists_mem_of_reached_codeterminize hA hu

/-- The states of the minimized automaton correspond to the left quotients that hold a word. -/
theorem quotients_eq_image (hA : A.WellFormed) {accepted : List Char}
    (haccepted : accepted ∈ A.language) :
    quotients A.language
      = A.codeterminize.languageFrom '' {states | states ∈ A.codeterminize.subsets} := by
  have hquotient : ∀ u, A.language.leftQuotient u
      = A.codeterminize.languageFrom (A.codeterminize.reached u) := by
    intro u
    rw [← leftQuotient_language hA.codeterminize, language_codeterminize hA]
  ext M
  constructor
  · intro h
    rcases h with ⟨⟨word, hword⟩, u, rfl⟩
    refine ⟨A.codeterminize.reached u, ?_, (hquotient u).symm⟩
    -- A quotient that holds a word is not empty, so the word leads to a set that is not empty, and
    -- such sets have been discovered.
    refine reached_mem_subsets hA.codeterminize (Or.inr fun hempty => ?_)
    rw [(reached_codeterminize_eq_empty_iff hA).1 hempty] at hword
    exact Language.notMem_zero word hword
  · intro h
    rcases h with ⟨states, hstates, rfl⟩
    rcases (mem_subsets hA.codeterminize).1 hstates with ⟨u, hu, rfl⟩
    rw [← hquotient]
    exact ⟨exists_mem_of_alive hA haccepted hu, u, rfl⟩

theorem injOn_languageFrom (hA : A.WellFormed) :
    Set.InjOn A.codeterminize.languageFrom {states | states ∈ A.codeterminize.subsets} := by
  intro states hstates others hothers h
  rcases (mem_subsets hA.codeterminize).1 hstates with ⟨u, _, rfl⟩
  rcases (mem_subsets hA.codeterminize).1 hothers with ⟨v, _, rfl⟩
  rw [← leftQuotient_language hA.codeterminize, ← leftQuotient_language hA.codeterminize,
    language_codeterminize hA] at h
  exact (reached_codeterminize_eq_iff hA).2 h

theorem ncard_subsets (A : Automaton) :
    {states | states ∈ A.subsets}.ncard = A.subsets.length := by
  have hset : {states | states ∈ A.subsets} = ↑A.subsets.toFinset := by
    ext states
    simp
  rw [hset, Set.ncard_coe_finset, List.toFinset_card_of_nodup A.nodup_subsets]

/-- Without accepted words, the minimized automaton is a single state without edges. -/
theorem minimize_eq_of_language_eq_zero (hA : A.WellFormed) (hL : A.language = 0) :
    A.minimize = ⟨1, .ofList [0], ∅, ∅⟩ := by
  -- A state to begin with could be completed to an accepted word.
  have hdead : A.codeterminize.reached [] = ∅ := by
    by_contra hne
    rcases exists_mem_of_reached_codeterminize hA hne with ⟨v, hv⟩
    rw [hL] at hv
    exact Language.notMem_zero _ hv
  rw [minimize_eq, determinize_eq_of_reached_nil hA.codeterminize hdead]

theorem size_minimize (hA : A.WellFormed) :
    (quotients A.language).Finite ∧ A.minimize.size = max 1 (quotients A.language).ncard := by
  by_cases hL : ∃ word, word ∈ A.language
  · rcases hL with ⟨accepted, haccepted⟩
    have himage := quotients_eq_image hA haccepted
    have hfinite : {states | states ∈ A.codeterminize.subsets}.Finite :=
      List.finite_toSet _
    have hpos := A.codeterminize.length_subsets_pos
    refine ⟨himage ▸ hfinite.image _, ?_⟩
    rw [himage, (injOn_languageFrom hA).ncard_image, ncard_subsets, minimize_eq,
      size_determinize]
    omega
  -- Without accepted words there is no such quotient, but there is still one state.
  · have hzero : A.language = 0 := by
      ext word
      exact ⟨fun h => absurd ⟨word, h⟩ hL, fun h => absurd h (Language.notMem_zero word)⟩
    have hquotients : quotients A.language = ∅ := by
      rw [Set.eq_empty_iff_forall_notMem]
      rintro _ ⟨⟨word, hword⟩, u, rfl⟩
      exact hL ⟨u ++ word, hword⟩
    rw [hquotients, minimize_eq_of_language_eq_zero hA hzero]
    exact ⟨Set.finite_empty, by rw [Set.ncard_empty]; rfl⟩

/-! ### Deterministic automata -/

/-- Without epsilon edges, a path that spells nothing stays where it is. -/
theorem Path.eq_of_nil (hA : A.isDeterministic = true) {s t : Nat} (h : A.Path s [] t) :
    t = s := by
  generalize hword : ([] : List Char) = word at h
  cases h with
  | nil => rfl
  | @cons _ m _ label word edge _ =>
    rcases List.append_eq_nil_iff.1 hword.symm with ⟨hlabel, _⟩
    cases label with
    | none => exact absurd rfl ((isDeterministic_eq_true_iff.1 hA).2.1 _ edge)
    | some c => exact absurd hlabel (List.cons_ne_nil c [])

theorem Path.exists_edge (hA : A.isDeterministic = true) {s t : Nat} {c : Char}
    {word : List Char} (h : A.Path s (c :: word) t) :
    ∃ k, ⟨s, k, some c⟩ ∈ A.edges ∧ A.Path k word t := by
  rcases FiniteState.Path.exists_of_cons h with ⟨m, k, hm, hedge, hpath⟩
  rw [Path.eq_of_nil hA hm] at hedge
  exact ⟨k, hedge, hpath⟩

/-- In a deterministic automaton, paths that begin in one state and spell one word end in one
    state. -/
theorem Path.unique (hA : A.isDeterministic = true) {s t t' : Nat} {word : List Char}
    (h : A.Path s word t) (h' : A.Path s word t') : t = t' := by
  induction word generalizing s with
  | nil => rw [h.eq_of_nil hA, h'.eq_of_nil hA]
  | cons c word ih =>
    rcases h.exists_edge hA with ⟨k, hedge, hpath⟩
    rcases h'.exists_edge hA with ⟨k', hedge', hpath'⟩
    have hsame := (isDeterministic_eq_true_iff.1 hA).2.2 _ hedge _ hedge' rfl rfl
    rw [Edge.mk.injEq] at hsame
    rw [← hsame.2.1] at hpath'
    exact ih hpath hpath'

/-- A word leads to one state of a deterministic automaton, or to none. -/
theorem reached_of_isDeterministic (hA : A.WellFormed) (hdet : A.isDeterministic = true)
    {word : List Char} {s : Nat} (hs : s ∈ A.reached word) : A.reached word = .ofList [s] := by
  refine StateSet.ext_mem fun t => ?_
  rw [StateSet.mem_ofList, List.mem_singleton]
  constructor
  · intro ht
    rcases (mem_reached hA).1 hs with ⟨x, hx, hpath⟩
    rcases (mem_reached hA).1 ht with ⟨y, hy, hpath'⟩
    rw [(isDeterministic_eq_true_iff.1 hdet).1 y hy x hx] at hpath'
    exact hpath'.unique hdet hpath
  · rintro rfl
    exact hs

/-- A deterministic automaton has a state for every left quotient that holds a word. -/
theorem ncard_quotients_le (hA : A.WellFormed) (hdet : A.isDeterministic = true) :
    (quotients A.language).ncard ≤ A.size := by
  have hsub : quotients A.language
      ⊆ (fun s => A.languageFrom (.ofList [s])) '' (Finset.range A.size : Set Nat) := by
    rintro _ ⟨⟨word, hword⟩, u, rfl⟩
    rw [leftQuotient_language hA] at hword ⊢
    -- A word with such a quotient leads to a state, from which the quotient is read.
    have hne : A.reached u ≠ ∅ := by
      intro hempty
      rw [hempty, languageFrom_empty] at hword
      exact Language.notMem_zero word hword
    have hexists : ∃ s, s ∈ A.reached u := by
      by_contra hnone
      exact hne (StateSet.ext_mem fun s =>
        ⟨fun hs => absurd ⟨s, hs⟩ hnone, fun hs => absurd hs (StateSet.not_mem_empty s)⟩)
    rcases hexists with ⟨s, hs⟩
    refine ⟨s, Finset.mem_coe.2 (Finset.mem_range.2 (reached_lt hA hs)), ?_⟩
    simp only [reached_of_isDeterministic hA hdet hs]
  refine (Set.ncard_le_ncard hsub ((Finset.finite_toSet _).image _)).trans ?_
  refine (Set.ncard_image_le (Finset.finite_toSet _)).trans ?_
  rw [Set.ncard_coe_finset, Finset.card_range]

end Automaton

end FiniteState
