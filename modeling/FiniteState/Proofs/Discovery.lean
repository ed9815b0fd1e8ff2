import FiniteState.Search
import Mathlib.Data.List.Forall2
import Mathlib.Data.List.Nodup

/-!
# Laws of Discovery

The list of discovered values is closed under successors once as many rounds are given as there are
values, and more rounds then change nothing. The number of rounds is only a bound, so two
discoveries can be compared although they are given different bounds. A discovery that goes on until
every known value has been looked at, whatever that takes, may have no end; if it has one, it ends
with what enough rounds discover.

`Search.forall₂_discover` runs two discoveries side by side. If the values found first correspond,
and corresponding values have corresponding successors in the same order, then the two lists
correspond place by place. The correspondence has to be one to one, since each discovery leaves out
what it knows already, and both have to leave out the same places.

## Main definitions

* `Search.Discovers`: What a discovery without a bound ends with.

## Theorems

* `Search.discovers_iff`: It ends with what enough rounds discover.
* `Search.discover_stable`: More rounds than needed change nothing.
* `Search.discover_closed`: The values at the places looked at have their successors in the list.
* `Search.discover_induction`: What holds initially and passes to successors holds of all values.
* `Search.forall₂_discover`: Corresponding discoveries find corresponding lists.
-/

namespace FiniteState

namespace Search

variable {α β : Type} [DecidableEq α] [DecidableEq β]

omit [DecidableEq α] in
/-- A value keeps its place in every longer list. -/
theorem getElem?_of_prefix {known found : List α} (h : known <+: found) {i : Nat} {x : α}
    (hx : known[i]? = some x) : found[i]? = some x := by
  rcases h with ⟨rest, rfl⟩
  rw [List.getElem?_append_left (List.getElem?_eq_some_iff.1 hx).1]
  exact hx

theorem discover_of_length_le {successors : α → List α} {rounds place : Nat} {known : List α}
    (h : known.length ≤ place) : discover successors rounds place known = known := by
  cases rounds with
  | zero => rfl
  | succ rounds => rw [discover, List.getElem?_eq_none h]

theorem discover_add (successors : α → List α) (rounds more place : Nat) (known : List α) :
    discover successors (rounds + more) place known
      = discover successors more (place + rounds) (discover successors rounds place known) := by
  induction rounds generalizing place known with
  | zero => rw [Nat.zero_add, Nat.add_zero, discover]
  | succ rounds ih =>
    rw [show rounds + 1 + more = rounds + more + 1 by omega, discover, discover]
    cases hx : known[place]? with
    | none =>
      -- Nothing is left to look at, and more rounds change nothing.
      have hlength := List.getElem?_eq_none_iff.1 hx
      have hle : known.length ≤ place + (rounds + 1) := by omega
      exact (discover_of_length_le hle).symm
    | some x =>
      rw [show place + (rounds + 1) = place + 1 + rounds by omega]
      exact ih (place + 1) _

/-- What a discovery without a bound on its rounds ends with: it goes on until there is no known
    value that has not been looked at. -/
inductive Discovers (successors : α → List α) : Nat → List α → List α → Prop
  | stop {place : Nat} {known : List α} (hplace : known[place]? = none) :
      Discovers successors place known known
  | round {place : Nat} {known found : List α} {x : α} (hplace : known[place]? = some x)
      (rest : Discovers successors (place + 1) ((successors x).foldl addNew known) found) :
      Discovers successors place known found

theorem Discovers.unique {successors : α → List α} {place : Nat} {known found others : List α}
    (h : Discovers successors place known found) (h' : Discovers successors place known others) :
    found = others := by
  induction h with
  | stop hplace =>
    cases h' with
    | stop _ => rfl
    | round hplace' _ => exact absurd (hplace.symm.trans hplace') (by simp)
  | round hplace _ ih =>
    cases h' with
    | stop hplace' => exact absurd (hplace'.symm.trans hplace) (by simp)
    | round hplace' rest =>
      -- There is only one value at a place.
      obtain rfl := Option.some.inj (hplace.symm.trans hplace')
      exact ih rest

/-- If every discovered value has been looked at, a discovery without a bound comes to an end, and
    that is with the same values. -/
theorem discovers_iff {successors : α → List α} {rounds place : Nat} {known found : List α}
    (h : (discover successors rounds place known).length ≤ place + rounds) :
    Discovers successors place known found ↔ found = discover successors rounds place known := by
  -- A discovery with a bound that suffices is one without a bound.
  have hends : Discovers successors place known (discover successors rounds place known) := by
    induction rounds generalizing place known with
    | zero => exact .stop (List.getElem?_eq_none h)
    | succ rounds ih =>
      rw [discover] at h ⊢
      cases hplace : known[place]? with
      | none => exact .stop hplace
      | some x =>
        rw [hplace] at h
        simp only at h
        exact .round hplace (ih (by omega))
  constructor
  · exact fun hfound => hfound.unique hends
  · rintro rfl
    exact hends

/-- If every discovered value has been looked at, more rounds change nothing. -/
theorem discover_stable {successors : α → List α} {rounds place : Nat} {known : List α}
    (h : (discover successors rounds place known).length ≤ place + rounds) (more : Nat) :
    discover successors (rounds + more) place known = discover successors rounds place known := by
  rw [discover_add, discover_of_length_le h]

/-- The successors of a value at a place that has been looked at have been discovered. -/
theorem discover_closed {successors : α → List α} {rounds place i : Nat} {known : List α} {x : α}
    (hplace : place ≤ i) (hi : i < place + rounds)
    (hx : (discover successors rounds place known)[i]? = some x) :
    ∀ y ∈ successors x, y ∈ discover successors rounds place known := by
  induction rounds generalizing place known with
  | zero => omega
  | succ rounds ih =>
    rw [discover] at hx ⊢
    cases hfirst : known[place]? with
    | none =>
      rw [hfirst] at hx
      have hlength := List.getElem?_eq_none_iff.1 hfirst
      have hnone : known[i]? = none := List.getElem?_eq_none (by omega)
      exact absurd (hnone.symm.trans hx) (by simp)
    | some first =>
      rw [hfirst] at hx
      simp only at hx ⊢
      by_cases hi' : i = place
      · -- The first value looked at keeps its place, so `x` is that value.
        subst hi'
        have hkeep := getElem?_of_prefix
          ((prefix_foldl_addNew known (successors first)).trans
            (prefix_discover successors rounds (i + 1) _)) hfirst
        have hfirst' : first = x := Option.some.inj (hkeep.symm.trans hx)
        subst hfirst'
        intro y hy
        exact (prefix_discover successors rounds (i + 1) _).subset
          (mem_foldl_addNew.2 (Or.inr hy))
      -- Later places are looked at in the rounds that remain.
      · exact ih (by omega) (by omega) hx

/-- What holds of the values known first, and passes from a value to its successors, holds of all
    that is discovered. -/
theorem discover_induction {successors : α → List α} {rounds place : Nat} {known : List α}
    (holds : α → Prop) (hknown : ∀ x ∈ known, holds x)
    (hsucc : ∀ x, holds x → ∀ y ∈ successors x, holds y) :
    ∀ x ∈ discover successors rounds place known, holds x := by
  induction rounds generalizing place known with
  | zero => exact hknown
  | succ rounds ih =>
    rw [discover]
    cases hfirst : known[place]? with
    | none => exact hknown
    | some first =>
      refine ih fun x hx => ?_
      -- A value was known before this round, or it is a successor of the one looked at.
      rcases mem_foldl_addNew.1 hx with hx | hx
      · exact hknown x hx
      · exact hsucc first (hknown first (List.mem_of_getElem? hfirst)) x hx

/-! ### Two discoveries side by side -/

variable {corresponds : α → β → Prop}

/-- A correspondence that is one to one between the values that take part in it. -/
def OneToOne (corresponds : α → β → Prop) : Prop :=
  ∀ x x' y y', corresponds x y → corresponds x' y' → (x = x' ↔ y = y')

omit [DecidableEq α] [DecidableEq β] in
theorem OneToOne.mem_iff (hone : OneToOne corresponds) {known : List α} {known' : List β}
    (hknown : List.Forall₂ corresponds known known') {x : α} {y : β} (hxy : corresponds x y) :
    x ∈ known ↔ y ∈ known' := by
  induction hknown with
  | nil => simp
  | cons hfirst _ ih => rw [List.mem_cons, List.mem_cons, hone _ _ _ _ hxy hfirst, ih]

theorem OneToOne.forall₂_addNew (hone : OneToOne corresponds) {known : List α} {known' : List β}
    (hknown : List.Forall₂ corresponds known known') {x : α} {y : β} (hxy : corresponds x y) :
    List.Forall₂ corresponds (addNew known x) (addNew known' y) := by
  have hmem := hone.mem_iff hknown hxy
  unfold addNew
  -- Both lists know their value already, or neither does.
  by_cases hx : x ∈ known
  · rw [if_pos hx, if_pos (hmem.1 hx)]
    exact hknown
  · rw [if_neg hx, if_neg fun hy => hx (hmem.2 hy)]
    exact List.rel_append hknown (.cons hxy .nil)

theorem OneToOne.forall₂_foldl_addNew (hone : OneToOne corresponds) {known added : List α}
    {known' added' : List β} (hknown : List.Forall₂ corresponds known known')
    (hadded : List.Forall₂ corresponds added added') :
    List.Forall₂ corresponds (added.foldl addNew known) (added'.foldl addNew known') := by
  induction hadded generalizing known known' with
  | nil => exact hknown
  | cons hxy _ ih => exact ih (hone.forall₂_addNew hknown hxy)

/-- Discoveries that begin with corresponding values, where corresponding values have corresponding
    successors, find corresponding lists. -/
theorem forall₂_discover (hone : OneToOne corresponds) {successors : α → List α}
    {successors' : β → List β} (hsucc : ∀ x y, corresponds x y →
      List.Forall₂ corresponds (successors x) (successors' y))
    (rounds place : Nat) {known : List α} {known' : List β}
    (hknown : List.Forall₂ corresponds known known') :
    List.Forall₂ corresponds (discover successors rounds place known)
      (discover successors' rounds place known') := by
  induction rounds generalizing place known known' with
  | zero => exact hknown
  | succ rounds ih =>
    rw [discover, discover]
    have hlength := hknown.length_eq
    -- The lists are equally long, so both have a value at this place or neither has.
    by_cases hplace : place < known.length
    · have hplace' : place < known'.length := hlength ▸ hplace
      rw [List.getElem?_eq_getElem hplace, List.getElem?_eq_getElem hplace']
      have hfirst : corresponds known[place] known'[place] :=
        hknown.get hplace hplace'
      exact ih (place + 1) (hone.forall₂_foldl_addNew hknown (hsucc _ _ hfirst))
    · rw [List.getElem?_eq_none (by omega), List.getElem?_eq_none (by omega)]
      exact hknown

end Search

end FiniteState
