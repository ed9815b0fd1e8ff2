import FiniteState.Console.Command
import FiniteState.Proofs.Minimization
import Mathlib.Algebra.Group.Nat.Even

/-!
# Sequences of Conversions

Automata may be turned around, determinized and minimized any number of times, one after another.
Every step has states of its own, and what it does to the accepted words is a matter of paths: a
path followed backwards is a path of the automaton turned around, and the other two steps keep the
words that paths spell. So only the turns count, and of these only whether their number is even.

## Main definitions

* `Automaton.convertAll`: The result of conversions one after another.

## Theorems

* `Automaton.WellFormed.convert`, `Automaton.language_convert`: What one step preserves, and what it
  does to the accepted words.
* `Automaton.WellFormed.convertAll`, `Automaton.language_convertAll`: The same for a sequence.
* `Automaton.convertAll_accepts_eq`: A sequence accepts the same words, or all of them backwards.
-/

namespace FiniteState

namespace Automaton

variable {A : Automaton}

/-- The result of conversions one after another. -/
def convertAll (A : Automaton) (steps : List Conversion) : Automaton :=
  steps.foldl (fun B step => step.apply B) A

theorem convertAll_cons (A : Automaton) (step : Conversion) (steps : List Conversion) :
    A.convertAll (step :: steps) = (step.apply A).convertAll steps := rfl

theorem WellFormed.convert (hA : A.WellFormed) (step : Conversion) :
    (step.apply A).WellFormed := by
  cases step with
  | reverse => exact hA.reverse
  | determinize => exact hA.determinize
  | minimize => exact hA.minimize

theorem language_convert (hA : A.WellFormed) (step : Conversion) :
    (step.apply A).language = if step = .reverse then A.language.reverse else A.language := by
  cases step with
  | reverse => exact language_reverse A
  | determinize => exact language_determinize hA
  | minimize => exact language_minimize hA

theorem WellFormed.convertAll (hA : A.WellFormed) (steps : List Conversion) :
    (A.convertAll steps).WellFormed := by
  induction steps generalizing A with
  | nil => exact hA
  | cons step steps ih => exact ih (hA.convert step)

/-- Every turn reverses the language, so that two of them cancel out. -/
theorem language_convertAll (hA : A.WellFormed) (steps : List Conversion) :
    (A.convertAll steps).language =
      if Even (steps.count .reverse) then A.language else A.language.reverse := by
  induction steps generalizing A with
  | nil => rfl
  | cons step steps ih =>
    rw [convertAll_cons, ih (hA.convert step), language_convert hA]
    by_cases hstep : step = .reverse
    · -- The first step is one turn more, and the others begin with the reversed language.
      rw [hstep, if_pos rfl, Language.reverse_reverse, List.count_cons_self]
      by_cases heven : Even (steps.count .reverse)
      · rw [if_pos heven, if_neg fun hodd => Nat.even_add_one.1 hodd heven]
      · rw [if_neg heven, if_pos (Nat.even_add_one.2 heven)]
    · rw [if_neg hstep, List.count_cons_of_ne hstep]

/-- An automaton turned around accepts the words backwards, turned around twice it is as before, and
    its size and its alphabet stay the same. The result of any sequence of turns, determinizations
    and minimizations accepts the words of the first automaton if the number of turns is even, and
    else these words backwards. -/
theorem convertAll_accepts_eq (hA : A.WellFormed) :
    (∀ word, A.reverse.accepts word = A.accepts word.reverse) ∧ A.reverse.reverse = A ∧
    A.reverse.size = A.size ∧ A.reverse.alphabet = A.alphabet ∧
    ∀ (steps : List Conversion) (word : List Char), (A.convertAll steps).accepts word =
      A.accepts (if Even (steps.count .reverse) then word else word.reverse) := by
  -- A single turn is a sequence of steps like any other.
  have hsteps : ∀ (steps : List Conversion) (word : List Char),
      (A.convertAll steps).accepts word =
        A.accepts (if Even (steps.count .reverse) then word else word.reverse) := by
    intro steps word
    rw [Bool.eq_iff_iff, accepts_eq_true_iff (hA.convertAll steps), accepts_eq_true_iff hA,
      language_convertAll hA]
    by_cases heven : Even (steps.count .reverse)
    · rw [if_pos heven, if_pos heven]
    · rw [if_neg heven, if_neg heven, Language.mem_reverse]
  exact ⟨hsteps [.reverse], reverse_reverse A, rfl, alphabet_reverse A, hsteps⟩

theorem branching_convertAll_accepts_eq : branching.WellFormed ∧
    branching.accepts "ab".toList = false ∧ branching.accepts "ba".toList = true ∧
    branching.reverse.accepts "ab".toList = true ∧
    branching.reverse.reverse = branching ∧ branching.reverse.alphabet = branching.alphabet ∧
    (branching.convertAll [.reverse, .determinize, .reverse, .minimize, .reverse]).accepts
      "ab".toList = true := by
  have hwell : branching.WellFormed := by decide +kernel
  have hbackwards : branching.accepts "ba".toList = true := by decide +kernel
  rcases convertAll_accepts_eq hwell with ⟨hreverse, htwice, -, halphabet, hsteps⟩
  refine ⟨hwell, by decide +kernel, hbackwards, ?_, htwice, halphabet, ?_⟩
  · rw [hreverse]
    exact hbackwards
  -- There are three turns among the steps, which come to one.
  · rw [hsteps]
    exact hbackwards

end Automaton

end FiniteState
