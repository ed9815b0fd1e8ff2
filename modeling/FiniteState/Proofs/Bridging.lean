import FiniteState.Automaton.Combination
import FiniteState.Proofs.Path

/-!
# Ways Around and Ways Back

What an atomic automaton accepts with one more epsilon edge between its ends. Nothing is assumed of
the automaton but that it has one entry and one exit: edges may enter the entry and leave the exit,
and both may be one state.

A path is cut wherever it takes the new edge. With a way back, every piece leads from the entry to
the exit, so the words of the pieces are accepted words. With a way around, the pieces between two
uses of the edge lead from the exit back to the entry.

## Theorems

* `Path.bridge_iff`: A path is cut wherever it takes one more epsilon edge.
* `Automaton.mem_language_iff_path`: An atomic automaton accepts the words between its ends.
* `Automaton.language_iteration`: A way back adds the words that are made of several.
* `Automaton.mem_language_option`: The words that a way around adds.
-/

namespace FiniteState

open scoped Computability

namespace Path

variable {edges : Set Edge} {s t a b : Nat} {word : List Char}

theorem epsilon (h : .epsilon s t ∈ edges) : Path edges s [] t :=
  cons h (nil t)

/-- A path is cut wherever it takes one more epsilon edge. -/
theorem bridge_iff :
    Path (insert (.epsilon a b) edges) s word t ↔
      Path edges s word t ∨ ∃ u loops v, word = u ++ List.flatten loops ++ v ∧ Path edges s u a ∧
        (∀ loop ∈ loops, Path edges b loop a) ∧ Path edges b v t := by
  constructor
  · intro h
    induction h with
    | nil s => exact Or.inl (nil s)
    | @cons s m t label word edge _ ih =>
      rcases edge with hbridge | hedge
      · -- The path takes the new edge, so a loop ends here, or the last piece begins.
        simp only [Edge.epsilon, Edge.mk.injEq] at hbridge
        rcases hbridge with ⟨rfl, rfl, rfl⟩
        rcases ih with hpath | ⟨u, loops, v, rfl, hu, hloops, hv⟩
        · exact Or.inr ⟨[], [], word, rfl, nil s, by simp, hpath⟩
        · refine Or.inr ⟨[], u :: loops, v, by simp, nil s, ?_, hv⟩
          intro loop hloop
          rcases List.mem_cons.1 hloop with rfl | hloop
          · exact hu
          · exact hloops loop hloop
      -- Any other edge only makes the piece before the first crossing longer.
      · rcases ih with hpath | ⟨u, loops, v, rfl, hu, hloops, hv⟩
        · exact Or.inl (cons hedge hpath)
        · exact Or.inr ⟨label.toList ++ u, loops, v, by simp, cons hedge hu, hloops, hv⟩
  · have hsub : ∀ e ∈ edges, e ∈ insert (Edge.epsilon a b) edges := fun e he => Or.inr he
    have hbridge : Path (insert (Edge.epsilon a b) edges) a [] b := epsilon (Or.inl rfl)
    intro h
    rcases h with h | ⟨u, loops, v, rfl, hu, hloops, hv⟩
    · exact h.mono hsub
    -- Each loop begins with the new edge, so that the loops lead from `a` back to `a`.
    · have haround : ∀ rest : List (List Char), (∀ loop ∈ rest, Path edges b loop a) →
          Path (insert (Edge.epsilon a b) edges) a rest.flatten a := by
        intro rest hrest
        induction rest with
        | nil => exact nil a
        | cons loop rest ih =>
          have hloop := (hrest loop List.mem_cons_self).mono hsub
          rw [List.flatten_cons]
          exact (hbridge.append hloop).append
            (ih fun other hother => hrest other (List.mem_cons_of_mem _ hother))
      exact ((hu.mono hsub).append (haround loops hloops)).append (hbridge.append (hv.mono hsub))

end Path

namespace Automaton

variable {A : Automaton} {ends : Ends} {word : List Char}

theorem mem_starting_iff (h : A.ends = .ok ends) {s : Nat} : s ∈ A.starting ↔ s = ends.entry := by
  rw [← StateSet.mem_toList, (ends_eq_ok_iff.1 h).1, List.mem_singleton]

theorem mem_final_iff (h : A.ends = .ok ends) {s : Nat} : s ∈ A.final ↔ s = ends.exit := by
  rw [← StateSet.mem_toList, (ends_eq_ok_iff.1 h).2, List.mem_singleton]

/-- An atomic automaton accepts the words on the way from its entry to its exit. -/
theorem mem_language_iff_path (h : A.ends = .ok ends) :
    word ∈ A.language ↔ A.Path ends.entry word ends.exit := by
  simp only [mem_language, mem_starting_iff h, mem_final_iff h, exists_eq_left]

theorem WellFormed.ends_lt (hA : A.WellFormed) (h : A.ends = .ok ends) :
    ends.entry < A.size ∧ ends.exit < A.size :=
  ⟨hA.starting_lt _ ((mem_starting_iff h).2 rfl), hA.final_lt _ ((mem_final_iff h).2 rfl)⟩

/-- With one more epsilon edge there are the same ends, and the paths are cut at that edge. -/
theorem mem_language_addEdge (h : A.ends = .ok ends) {a b : Nat} :
    word ∈ (A.addEdge (.epsilon a b)).language ↔
      word ∈ A.language ∨ ∃ u loops v, word = u ++ List.flatten loops ++ v ∧
        A.Path ends.entry u a ∧ (∀ loop ∈ loops, A.Path b loop a) ∧ A.Path b v ends.exit := by
  have hends : (A.addEdge (.epsilon a b)).ends = .ok ends := h
  have hedges : {e | e ∈ (A.addEdge (.epsilon a b)).edges}
      = insert (Edge.epsilon a b) {e | e ∈ A.edges} := Set.ext fun e => mem_edges_addEdge
  rw [mem_language_iff_path hends, mem_language_iff_path h, Path, hedges]
  exact FiniteState.Path.bridge_iff

theorem option_eq (h : A.ends = .ok ends) :
    A.option = .ok (A.addEdge (.epsilon ends.entry ends.exit)) := by
  rw [option, h]
  rfl

theorem iteration_eq (h : A.ends = .ok ends) :
    A.iteration = .ok (A.addEdge (.epsilon ends.exit ends.entry)) := by
  rw [iteration, h]
  rfl

/-- The words that the way around adds run from the entry back to it, then any number of times from
    the exit back to the entry, and at last from the exit to the exit. -/
theorem mem_language_option (h : A.ends = .ok ends) {B : Automaton} (hB : A.option = .ok B) :
    word ∈ B.language ↔
      word ∈ A.language ∨ ∃ u loops v, word = u ++ List.flatten loops ++ v ∧
        A.Path ends.entry u ends.entry ∧ (∀ loop ∈ loops, A.Path ends.exit loop ends.entry) ∧
        A.Path ends.exit v ends.exit := by
  rw [option_eq h, Except.ok.injEq] at hB
  rw [← hB]
  exact mem_language_addEdge h

/-- The way back adds the words that are made of several accepted words. -/
theorem language_iteration (h : A.ends = .ok ends) {B : Automaton} (hB : A.iteration = .ok B) :
    B.language = A.language * A.language∗ := by
  rw [iteration_eq h, Except.ok.injEq] at hB
  ext word
  rw [← hB, mem_language_addEdge h, Language.mem_mul]
  simp only [← mem_language_iff_path h, Language.mem_kstar]
  constructor
  · intro hpieces
    rcases hpieces with hword | ⟨u, loops, v, rfl, hu, hloops, hv⟩
    · exact ⟨word, hword, [], ⟨[], rfl, by simp⟩, List.append_nil word⟩
    -- Between two uses of the way back, and after the last, an accepted word is read.
    · refine ⟨u, hu, _, ⟨loops ++ [v], rfl, ?_⟩, by simp⟩
      intro piece hpiece
      rcases List.mem_append.1 hpiece with hloop | hlast
      · exact hloops piece hloop
      · rwa [List.mem_singleton.1 hlast]
  · intro hpieces
    rcases hpieces with ⟨u, hu, _, ⟨pieces, rfl, hpieces⟩, rfl⟩
    rcases List.eq_nil_or_concat pieces with rfl | ⟨loops, v, rfl⟩
    · left
      rwa [List.flatten_nil, List.append_nil]
    · right
      refine ⟨u, loops, v, by simp, hu, ?_, hpieces v (by simp)⟩
      exact fun loop hloop => hpieces loop (by simp [hloop])

end Automaton

end FiniteState
