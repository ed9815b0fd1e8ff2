import Mathlib
import FiniteState.Pattern.Matcher
import FiniteState.Proofs.Minimization
import FiniteState.Proofs.Parsing

/-!
# Matchers

A matcher answers by the meaning of its pattern. Three readings of a pattern agree on every text:
the walk along the edges of the smallest deterministic automaton, the simulation of the automaton of
the tree, and the language of the tree.

The walk looks the next state up in a table, in which there is one place for each state and symbol.
That is right because a deterministic automaton has no two edges for one place, and because the
smallest deterministic automaton begins in one state.

## Theorems

* `Matcher.lookup_table_eq_some_iff`: The table of a deterministic automaton holds its edges.
* `Matcher.walk_eq_some_iff`: In a deterministic automaton, the walk follows the paths.
* `Matcher.run_eq_true_iff`: A deterministic matcher accepts the language of its automaton.
* `Pattern.exists_thompson`: The automaton of a pattern accepts the language of its tree.
* `Pattern.run_iff_mem_language_iff_accepts`: The three readings of a pattern agree.
-/

namespace FiniteState

namespace Matcher

variable {A : Automaton} {s t : Nat}

/-- The table of a deterministic automaton holds its edges. -/
theorem lookup_table_eq_some_iff (hdet : A.isDeterministic = true) {label : Option Char} :
    (table A).lookup (s, label) = some t ↔ ⟨s, t, label⟩ ∈ A.edges := by
  have hedge : ∀ t, (table A).lookup (s, label) = some t → ⟨s, t, label⟩ ∈ A.edges := by
    intro t h
    rcases List.lookup_eq_some_iff.1 h with ⟨earlier, later, htable, _⟩
    have hmem : ((s, label), t) ∈ table A := by
      rw [htable]
      exact List.mem_append_right _ List.mem_cons_self
    simp only [table, List.mem_reverse, List.mem_map, Std.ExtTreeSet.mem_toList, Prod.mk.injEq]
      at hmem
    rcases hmem with ⟨e, he, ⟨rfl, rfl⟩, rfl⟩
    exact he
  constructor
  · exact hedge t
  · intro h
    cases hlookup : (table A).lookup (s, label) with
    | none =>
      have hmem : ((s, label), t) ∈ table A := by
        simp only [table, List.mem_reverse, List.mem_map, Std.ExtTreeSet.mem_toList]
        exact ⟨_, h, rfl⟩
      exact absurd (List.lookup_eq_none_iff.1 hlookup _ hmem) (by simp)
    | some other =>
      -- No other edge has the same place, so none can hide this one.
      have hsame := (Automaton.isDeterministic_eq_true_iff.1 hdet).2.2 _ (hedge other hlookup) _ h
        rfl rfl
      rw [Edge.mk.injEq] at hsame
      rw [hsame.2.1]

/-- In a deterministic automaton, the walk along a text ends where its path does. -/
theorem walk_eq_some_iff (hdet : A.isDeterministic = true) {text : List Char} :
    walk (table A) s text = some t ↔ A.Path s text t := by
  induction text generalizing s with
  | nil =>
    rw [walk, Option.some.injEq]
    constructor
    · rintro rfl
      exact FiniteState.Path.nil s
    · intro h
      exact (h.eq_of_nil hdet).symm
  | cons c text ih =>
    rw [walk]
    -- A path that goes on takes an edge, and the table has that edge and no other.
    have hnext : A.Path s (c :: text) t ↔
        ∃ next, (table A).lookup (s, some c) = some next ∧ A.Path next text t := by
      simp only [lookup_table_eq_some_iff hdet]
      constructor
      · intro h
        exact h.exists_edge hdet
      · intro h
        rcases h with ⟨next, hedge, hpath⟩
        exact FiniteState.Path.cons hedge hpath
    rw [hnext]
    cases (table A).lookup (s, some c) with
    | none => simp
    | some next => simp [ih]

/-- A matcher whose automaton is deterministic accepts the language of that automaton. -/
theorem run_eq_true_iff (m : Matcher) (hdet : m.automaton.isDeterministic = true) {start : Nat}
    (hstart : m.automaton.starting = .ofList [start]) (text : List Char) :
    m.run text = true ↔ text ∈ m.automaton.language := by
  -- The walk ends or breaks off, and only its end is looked at.
  have hwalk : m.run text = true ↔ ∃ t, walk (table m.automaton) start text = some t ∧
      t ∈ m.automaton.final := by
    simp only [run, hstart, StateSet.toList_singleton]
    cases walk (table m.automaton) start text <;> simp
  rw [hwalk, Automaton.mem_language, hstart]
  simp only [walk_eq_some_iff hdet, StateSet.mem_ofList, List.mem_singleton, exists_eq_left]
  exact exists_congr fun t => and_comm

end Matcher

namespace Pattern

variable {pattern : List Char} {node : Regex}

/-- A pattern that can be read has an automaton, which accepts the language of its tree. -/
theorem exists_thompson (h : parse pattern = .ok node) :
    ∃ A, thompson pattern = .ok A ∧ A.WellFormed ∧ A.language = node.language := by
  rcases Regex.compile_eq_ok node (parse_eq_ok_iff.1 h).supported with
    ⟨A, hA, hgated, hlanguage⟩
  refine ⟨A, ?_, hgated.wellFormed, hlanguage⟩
  rw [thompson, h]
  -- The tree has been read, so that only its compilation could fail.
  change node.compile.mapError Fault.automaton = .ok A
  rw [hA]
  rfl

/-- The matcher of a pattern, the automaton of its tree and the language of its tree agree on every
    text. -/
theorem run_iff_mem_language_iff_accepts (h : parse pattern = .ok node) :
    ∃ m A, Matcher.ofPattern pattern = .ok m ∧ thompson pattern = .ok A ∧ ∀ text,
      (m.run text = true ↔ text ∈ node.language) ∧
        (m.run text = true ↔ A.accepts text = true) := by
  rcases exists_thompson h with ⟨A, hA, hwell, hlanguage⟩
  have hbuild : Matcher.build pattern = .ok A.minimize := by
    rw [Matcher.build, hA]
    rfl
  have hmatcher : Matcher.ofPattern pattern = .ok ⟨pattern, A.minimize⟩ := by
    rw [Matcher.ofPattern, hbuild]
    rfl
  refine ⟨_, A, hmatcher, hA, fun text => ?_⟩
  have hdet : A.minimize.isDeterministic = true :=
    Automaton.isDeterministic_determinize hwell.codeterminize
  -- The walk decides the language of the smallest automaton, which is that of the tree.
  have hrun := Matcher.run_eq_true_iff ⟨pattern, A.minimize⟩ hdet rfl text
  rw [Automaton.language_minimize hwell, hlanguage] at hrun
  refine ⟨hrun, hrun.trans ?_⟩
  rw [Automaton.accepts_eq_true_iff hwell, hlanguage]

/-- The tree of a pattern with an empty branch, a repetition of the group around it, a class, and an
    operator after a backslash. -/
def sampleTree : Regex :=
  .concatenation [.optional (.iteration (.alternation [.character ['a'], .concatenation []])),
    .optional (.characterSet [('0', '9')]), .character ['+']]

theorem run_iff_sampleTree : parse "(a|)*[0-9]?\\+".toList = .ok sampleTree ∧
    ∃ m A, Matcher.ofPattern "(a|)*[0-9]?\\+".toList = .ok m ∧
      thompson "(a|)*[0-9]?\\+".toList = .ok A ∧ ∀ text,
        (m.run text = true ↔ text ∈ sampleTree.language) ∧
          (m.run text = true ↔ A.accepts text = true) :=
  ⟨by cbv, run_iff_mem_language_iff_accepts (by cbv)⟩

end Pattern

end FiniteState
