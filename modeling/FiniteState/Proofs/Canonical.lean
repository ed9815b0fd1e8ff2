import FiniteState.Proofs.Matching
import FiniteState.Proofs.Minimality

/-!
# The Canonical Form

Minimization yields one automaton for each set of accepted words, state numbers included. Automata
are equal after it exactly if they accept the same words, however different they were before: in
their numbers of states, in epsilon edges, in symbols of no use and in states that lead nowhere.

A pattern has the automaton of its tree, so patterns have equal smallest automata exactly if their
trees stand for the same words.

## Theorems

* `Pattern.build_eq_build_iff`: The smallest automata of patterns are equal if the patterns mean the
  same.
* `Automaton.minimize_isCanonical`: Minimization yields a canonical form.
-/

namespace FiniteState

namespace Pattern

/-- Two patterns have smallest automata, which are equal exactly if the patterns mean the same. -/
theorem build_eq_build_iff {pattern other : List Char} {node node' : Regex}
    (h : parse pattern = .ok node) (h' : parse other = .ok node') :
    ∃ M N, Matcher.build pattern = .ok M ∧ Matcher.build other = .ok N ∧
      (M = N ↔ node.language = node'.language) := by
  rcases exists_thompson h with ⟨A, hA, hwell, hlanguage⟩
  rcases exists_thompson h' with ⟨B, hB, hwell', hlanguage'⟩
  refine ⟨A.minimize, B.minimize, ?_, ?_, ?_⟩
  · rw [Matcher.build, hA]
    rfl
  · rw [Matcher.build, hB]
    rfl
  -- Minimization is canonical, so this is a matter of languages only.
  · rw [Automaton.minimize_eq_iff hwell hwell', hlanguage, hlanguage']

end Pattern

namespace Automaton

variable {A B : Automaton}

/-- Minimization yields a canonical form: equal automata for equal sets of accepted words only, of
    which it changes none, and itself left alone by a second minimization. The smallest automata of
    two patterns are equal exactly if the patterns mean the same. -/
theorem minimize_isCanonical (hA : A.WellFormed) (hB : B.WellFormed) :
    (A.minimize = B.minimize ↔ ∀ word, A.accepts word = B.accepts word) ∧
      (∀ word, A.minimize.accepts word = A.accepts word) ∧
      A.minimize.minimize = A.minimize ∧
      ∀ pattern other node node', Pattern.parse pattern = .ok node →
        Pattern.parse other = .ok node' → ∃ M N, Matcher.build pattern = .ok M ∧
          Matcher.build other = .ok N ∧ (M = N ↔ node.language = node'.language) := by
  refine ⟨?_, ?_, minimize_minimize hA, fun _ _ _ _ => Pattern.build_eq_build_iff⟩
  · rw [minimize_eq_iff hA hB, accepts_eq_iff hA hB]
  · rw [accepts_eq_iff hA.minimize hA, language_minimize hA]

/-- The smallest automaton for `b` once or more. -/
def onceOrMore : Automaton where
  size := 2
  starting := .ofList [0]
  final := .ofList [1]
  edges := .ofList [Edge.mk 0 1 (some 'b'), Edge.mk 1 1 (some 'b')]

theorem minimize_isCanonical_redundant : redundant.WellFormed ∧ onceOrMore.WellFormed ∧
    (redundant.minimize = onceOrMore.minimize ↔
      ∀ word, redundant.accepts word = onceOrMore.accepts word) ∧
    (∀ word, redundant.minimize.accepts word = redundant.accepts word) ∧
    redundant.minimize.minimize = redundant.minimize ∧
    ∃ M N, Matcher.build "b+".toList = .ok M ∧ Matcher.build "bb*".toList = .ok N ∧
      (M = N ↔ (Regex.iteration (.character ['b'])).language =
        (Regex.concatenation [.character ['b'],
          .optional (.iteration (.character ['b']))]).language) := by
  have hredundant : redundant.WellFormed := by decide +kernel
  have honce : onceOrMore.WellFormed := by decide +kernel
  rcases minimize_isCanonical hredundant honce with ⟨hiff, haccepts, hagain, hbuild⟩
  exact ⟨hredundant, honce, hiff, haccepts, hagain, hbuild _ _ _ _ (by cbv) (by cbv)⟩

example : redundant.minimize = onceOrMore.minimize := by decide +kernel

end Automaton

end FiniteState
