import FiniteState.Text.Cut
import Mathlib.Data.List.Basic

/-!
# Decoding Texts

When a text tells what it is the text of. It is not enough that different things have different
texts, since texts are put one behind the other: where one of them ends must be known as well. So
two things count as told apart only if they are so with anything behind their texts.

This is a relation between two things rather than a property of the function that makes the texts,
so that in an induction it can be known of the parts of a thing before it is known of the thing.

## Main definitions

* `Text.Apart`: Two things are told apart by their texts.

## Theorems

* `Text.append_cons_inj`: A word ends at the first character that is none of its own.
* `Text.eq_of_flatMap_append_eq`: A list is decoded if its members are told apart, and from what
  stands behind the list.
-/

namespace FiniteState

namespace Text

variable {α : Type} {text : α → List Char} {x y : α} {xs ys : List α}

/-- Two things are told apart by their texts, whatever stands behind these: if both begin alike, the
    things are the same, and so is what stands behind them. -/
def Apart (text : α → List Char) (x y : α) : Prop :=
  ∀ u v, text x ++ u = text y ++ v → x = y ∧ u = v

theorem Apart.cons (h : Apart text x y) (c : Char) : Apart (fun z => c :: text z) x y :=
  fun u v huv => h u v (List.cons.inj huv).2

/-- A list is decoded from the texts of its members if these are told apart from each other and from
    what stands behind the list. -/
theorem eq_of_flatMap_append_eq {u v : List Char} (hapart : ∀ x ∈ xs, ∀ y ∈ ys, Apart text x y)
    (hxs : ∀ x ∈ xs, ∀ rest, text x ++ rest ≠ v) (hys : ∀ y ∈ ys, ∀ rest, text y ++ rest ≠ u)
    (h : xs.flatMap text ++ u = ys.flatMap text ++ v) : xs = ys ∧ u = v := by
  induction xs generalizing ys with
  | nil =>
    cases ys with
    | nil => exact ⟨rfl, h⟩
    | cons y ys =>
      rw [List.flatMap_cons, List.append_assoc] at h
      exact absurd h.symm (hys y List.mem_cons_self _)
  | cons x xs ih =>
    rcases List.forall_mem_cons.1 hxs with ⟨hx, hxs⟩
    rcases List.forall_mem_cons.1 hapart with ⟨hfirst, hapart⟩
    rw [List.flatMap_cons, List.append_assoc] at h
    cases ys with
    | nil => exact absurd h (hx _)
    | cons y ys =>
      rw [List.flatMap_cons, List.append_assoc] at h
      -- The first members are the same, and what stands behind them is decoded by induction.
      rcases hfirst y List.mem_cons_self _ _ h with ⟨rfl, hrest⟩
      have hboth := ih (fun x hx y hy => hapart x hx y (List.mem_cons_of_mem _ hy)) hxs
        (fun y hy => hys y (List.mem_cons_of_mem _ hy)) hrest
      exact ⟨by rw [hboth.1], hboth.2⟩

/-- A word ends at the first character that is none of its own. -/
theorem append_cons_inj {own : Char → Bool} {word word' u v : List Char} {c d : Char}
    (hword : ∀ k ∈ word, own k = true) (hword' : ∀ k ∈ word', own k = true) (hc : own c = false)
    (hd : own d = false) (h : word ++ c :: u = word' ++ d :: v) :
    word = word' ∧ c = d ∧ u = v := by
  have hend : ∀ {w rest : List Char} {k : Char}, (∀ j ∈ w, own j = true) → own k = false →
      (w ++ k :: rest).takeWhile own = w := by
    intro w rest k hw hk
    rw [List.takeWhile_append_of_pos hw, List.takeWhile_cons_of_neg (by simp [hk]), List.append_nil]
  have hsame : word = word' := by rw [← hend hword hc, h, hend hword' hd]
  rw [hsame] at h
  exact ⟨hsame, List.cons.inj (List.append_cancel_left h)⟩

end Text

end FiniteState
