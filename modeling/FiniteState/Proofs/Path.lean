import FiniteState.Automaton.Basic
import Mathlib.Computability.Language

/-!
# Paths

What an automaton accepts, said without its simulation. A path follows edges from one state to
another and spells a word: the labels on the way in order, epsilon left out. A word is accepted if
a path from a starting state to a final state spells it.

Paths are taken along any set of edges, not only along those of an automaton. The combinations of
automata are put together from lists of edges, and a path through them is cut where it leaves one
list for the next; each piece is then a path along fewer edges.

An edge contributes `e.label.toList` to the word, so epsilon edges and edges with a symbol are one
case in every induction that does not look at the word.

## Main definitions

* `Path`: A path along a set of edges, and the word that it spells.
* `Automaton.Path`: A path along the edges of an automaton.
* `Automaton.language`: The words that paths from starting to final states spell.

## Theorems

* `Path.append`, `Path.exists_of_append`: Paths are joined, and cut at any place of their word.
* `Path.exists_of_cons`: The first symbol of a word is read from one of its edges.
* `Path.reverse`: A path followed backwards along the edges turned around.
* `Path.confine`: A path that cannot leave a region uses the edges of that region only.
* `Path.eq_of_not_entered`, `Path.eq_of_not_left`: Where no edge enters, or none leaves, a path
  stays where it is.
* `Automaton.language_reverse`: An automaton turned around accepts the reversed words.
-/

namespace FiniteState

/-- A path along a set of edges from one state to another, with the word that it spells. -/
inductive Path (edges : Set Edge) : Nat → List Char → Nat → Prop
  /-- The path that stays where it is. -/
  | nil (s : Nat) : Path edges s [] s
  /-- A path that begins with an edge. -/
  | cons {s m t : Nat} {label : Option Char} {word : List Char}
      (edge : ⟨s, m, label⟩ ∈ edges) (rest : Path edges m word t) :
      Path edges s (label.toList ++ word) t

namespace Path

variable {edges larger : Set Edge} {s m t : Nat} {u v word : List Char}

theorem single {label : Option Char} (h : ⟨s, t, label⟩ ∈ edges) :
    Path edges s label.toList t := by
  have hpath := cons h (nil t)
  rwa [List.append_nil] at hpath

theorem append (hu : Path edges s u m) (hv : Path edges m v t) : Path edges s (u ++ v) t := by
  induction hu with
  | nil => exact hv
  | cons edge _ ih =>
    rw [List.append_assoc]
    exact cons edge (ih hv)

theorem mono (hsub : ∀ e ∈ edges, e ∈ larger) (h : Path edges s word t) :
    Path larger s word t := by
  induction h with
  | nil s => exact nil s
  | cons edge _ ih => exact cons (hsub _ edge) ih

/-- A path can be cut at any place of the word that it spells. -/
theorem exists_of_append (h : Path edges s (u ++ v) t) :
    ∃ m, Path edges s u m ∧ Path edges m v t := by
  -- The induction is on the path, and the place of the cut moves along with the word.
  generalize hword : u ++ v = word at h
  induction h generalizing u with
  | nil s =>
    rcases List.append_eq_nil_iff.1 hword with ⟨rfl, rfl⟩
    exact ⟨s, nil s, nil s⟩
  | @cons s m t label word edge rest ih =>
    cases label with
    | none =>
      -- An epsilon edge takes nothing from the word, so it belongs to the first part.
      rcases ih hword with ⟨k, hu, hv⟩
      exact ⟨k, cons edge hu, hv⟩
    | some c =>
      cases u with
      | nil =>
        -- The cut comes first, and the whole path is behind it.
        simp only [List.nil_append] at hword
        rw [hword]
        exact ⟨s, nil s, cons edge rest⟩
      | cons d u =>
        simp only [Option.toList_some, List.cons_append, List.nil_append,
          List.cons.injEq] at hword
        rcases hword with ⟨rfl, hword⟩
        rcases ih hword with ⟨k, hu, hv⟩
        exact ⟨k, cons edge hu, hv⟩

/-- The first symbol of the word is that of an edge, which only epsilon edges come before. -/
theorem exists_of_cons {c : Char} (h : Path edges s (c :: word) t) :
    ∃ m k, Path edges s [] m ∧ ⟨m, k, some c⟩ ∈ edges ∧ Path edges k word t := by
  generalize hword : c :: word = whole at h
  induction h with
  | nil => exact absurd hword (List.cons_ne_nil _ _)
  | @cons s m t label rest edge hrest ih =>
    cases label with
    -- An epsilon edge leaves the word as it is, and is put in front of those that come before the
    -- symbol.
    | none =>
      rcases ih hword with ⟨k, k', hk, hedge, hpath⟩
      exact ⟨k, k', cons edge hk, hedge, hpath⟩
    | some d =>
      simp only [Option.toList_some, List.cons_append, List.nil_append,
        List.cons.injEq] at hword
      rcases hword with ⟨rfl, rfl⟩
      exact ⟨s, m, nil s, edge, hrest⟩

/-- A path followed backwards, along the edges turned around. -/
theorem reverse (h : Path edges s word t) :
    Path {e | e.flip ∈ edges} t word.reverse s := by
  induction h with
  | nil s => exact nil s
  | @cons s m t label word edge _ ih =>
    have hflip : (⟨m, s, label⟩ : Edge) ∈ {e : Edge | e.flip ∈ edges} := edge
    have hback : Path {e | e.flip ∈ edges} m label.toList s := single hflip
    -- One symbol or none reads the same backwards.
    have hlabel : label.toList.reverse = label.toList := by cases label <;> rfl
    rw [List.reverse_append, hlabel]
    exact ih.append hback

/-- A path whose edges never lead out of a region uses the edges of the region only, and ends in
    it. -/
theorem confine {smaller : Set Edge} (region : Nat → Prop)
    (hstay : ∀ e ∈ edges, region e.source → e ∈ smaller ∧ region e.target)
    (hs : region s) (h : Path edges s word t) : Path smaller s word t ∧ region t := by
  induction h with
  | nil s => exact ⟨nil s, hs⟩
  | cons edge _ ih =>
    rcases hstay _ edge hs with ⟨hedge, hm⟩
    rcases ih hm with ⟨hpath, ht⟩
    exact ⟨cons hedge hpath, ht⟩

/-- A path to a state that no edge enters stays there. -/
theorem eq_of_not_entered (ht : ∀ e ∈ edges, e.target ≠ t) (h : Path edges s word t) :
    s = t ∧ word = [] := by
  induction h with
  | nil => exact ⟨rfl, rfl⟩
  | cons edge _ ih => exact absurd (ih ht).1 (ht _ edge)

/-- A path from a state that no edge leaves stays there. -/
theorem eq_of_not_left (hs : ∀ e ∈ edges, e.source ≠ s) (h : Path edges s word t) :
    s = t ∧ word = [] := by
  cases h with
  | nil => exact ⟨rfl, rfl⟩
  | cons edge _ => exact absurd rfl (hs _ edge)

end Path

namespace Automaton

/-- A path along the edges of an automaton. -/
def Path (A : Automaton) : Nat → List Char → Nat → Prop :=
  FiniteState.Path {e | e ∈ A.edges}

/-- The words that paths from a starting state to a final state spell. -/
def language (A : Automaton) : Language Char :=
  {word | ∃ s ∈ A.starting, ∃ t ∈ A.final, A.Path s word t}

theorem mem_language {A : Automaton} {word : List Char} :
    word ∈ A.language ↔ ∃ s ∈ A.starting, ∃ t ∈ A.final, A.Path s word t :=
  Iff.rfl

theorem path_of_edge {A : Automaton} {s t : Nat} {label : Option Char}
    (h : ⟨s, t, label⟩ ∈ A.edges) : A.Path s label.toList t :=
  FiniteState.Path.single h

theorem Path.append {A : Automaton} {s m t : Nat} {u v : List Char} (hu : A.Path s u m)
    (hv : A.Path m v t) : A.Path s (u ++ v) t :=
  FiniteState.Path.append hu hv

theorem Path.lt_size {A : Automaton} (hA : A.WellFormed) {s t : Nat} {word : List Char}
    (hs : s < A.size) (h : A.Path s word t) : t < A.size :=
  (FiniteState.Path.confine (· < A.size) (fun e he _ => ⟨he, hA.target_lt e he⟩) hs h).2

theorem path_reverse {A : Automaton} {s t : Nat} {word : List Char} :
    A.reverse.Path s word t ↔ A.Path t word.reverse s := by
  constructor
  · intro h
    refine FiniteState.Path.mono (fun e he => ?_) (FiniteState.Path.reverse h)
    exact mem_edges_reverse.1 he
  · intro h
    have hback := FiniteState.Path.reverse h
    rw [List.reverse_reverse] at hback
    exact FiniteState.Path.mono (fun e he => mem_edges_reverse.2 he) hback

theorem language_reverse (A : Automaton) : A.reverse.language = A.language.reverse := by
  ext word
  rw [Language.mem_reverse, mem_language, mem_language]
  constructor
  · intro h
    rcases h with ⟨s, hs, t, ht, hpath⟩
    exact ⟨t, ht, s, hs, path_reverse.1 hpath⟩
  · intro h
    rcases h with ⟨s, hs, t, ht, hpath⟩
    exact ⟨t, ht, s, hs, path_reverse.2 hpath⟩

end Automaton

end FiniteState
