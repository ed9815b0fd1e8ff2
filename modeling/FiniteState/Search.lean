import FiniteState.StateSet

/-!
# Searches

Two searches through what successors lead to. The first collects states with a stack, which holds
states whose successors are still to be looked at; a state is pushed when it is first seen, so it is
pushed once at most. The second lists values breadth first, in the order in which they are found.

Both go on for a number of rounds that is given from outside, and end before that once there is
nothing left to look at.

## Main definitions

* `Search.reach`: The states reached from a stack of states.
* `Search.addNew`: A list with one more value, unless it has that already.
* `Search.discover`: Known values completed by successors.

## Theorems

* `Search.mem_addNew`, `Search.mem_foldl_addNew`: The values in a list after additions.
* `Search.nodup_addNew`: Additions never make a value occur twice.
* `Search.prefix_discover`: Values that are known keep their places.
-/

namespace FiniteState

namespace Search

/-- The states seen so far and those reached from the states on the stack, found in at most the
    given number of rounds. -/
def reach (next : Nat → List Nat) : Nat → StateSet → List Nat → StateSet
  | 0, seen, _ => seen
  | _ + 1, seen, [] => seen
  | rounds + 1, seen, s :: stack =>
    let fresh := (next s).filter fun t => t ∉ seen
    reach next rounds (fresh.foldl StateSet.insert seen) (fresh ++ stack)

variable {α : Type} [DecidableEq α]

/-- A list with one more value at the end, unless it has that already. -/
def addNew (known : List α) (x : α) : List α :=
  if x ∈ known then known else known ++ [x]

/-- Complete the known values by successors. The successors of the value at `place` are added at the
    end, then those of the value after it, and so on for at most the given number of rounds. -/
def discover (successors : α → List α) : Nat → Nat → List α → List α
  | 0, _, known => known
  | rounds + 1, place, known =>
    match known[place]? with
    | none => known
    | some x => discover successors rounds (place + 1) ((successors x).foldl addNew known)

@[simp] theorem mem_addNew {known : List α} {x y : α} : y ∈ addNew known x ↔ y ∈ known ∨ y = x := by
  unfold addNew
  split
  next h =>
    constructor
    · exact Or.inl
    · intro h
      rcases h with hy | rfl
      · exact hy
      · exact h
  next => simp

@[simp] theorem mem_foldl_addNew {known added : List α} {y : α} :
    y ∈ added.foldl addNew known ↔ y ∈ known ∨ y ∈ added := by
  induction added generalizing known with
  | nil => simp
  | cons x added ih => simp [ih, or_assoc]

theorem nodup_addNew {known : List α} (h : known.Nodup) (x : α) : (addNew known x).Nodup := by
  unfold addNew
  split
  next => exact h
  next hx =>
    refine List.nodup_append.2 ⟨h, by simp, ?_⟩
    rintro y hy z hz rfl
    exact hx (List.mem_singleton.1 hz ▸ hy)

theorem nodup_foldl_addNew {known : List α} (h : known.Nodup) (added : List α) :
    (added.foldl addNew known).Nodup := by
  induction added generalizing known with
  | nil => exact h
  | cons x added ih => exact ih (nodup_addNew h x)

theorem prefix_addNew (known : List α) (x : α) : known <+: addNew known x := by
  unfold addNew
  split
  next => exact List.prefix_rfl
  next => exact List.prefix_append known [x]

theorem prefix_foldl_addNew (known added : List α) : known <+: added.foldl addNew known := by
  induction added generalizing known with
  | nil => exact List.prefix_rfl
  | cons x added ih => exact (prefix_addNew known x).trans (ih _)

theorem prefix_discover (successors : α → List α) (rounds place : Nat) (known : List α) :
    known <+: discover successors rounds place known := by
  induction rounds generalizing place known with
  | zero => exact List.prefix_rfl
  | succ rounds ih =>
    unfold discover
    split
    next => exact List.prefix_rfl
    next => exact (prefix_foldl_addNew _ _).trans (ih _ _)

theorem nodup_discover (successors : α → List α) (rounds place : Nat) {known : List α}
    (h : known.Nodup) : (discover successors rounds place known).Nodup := by
  induction rounds generalizing place known with
  | zero => exact h
  | succ rounds ih =>
    unfold discover
    split
    next => exact h
    next => exact ih _ (nodup_foldl_addNew h _)

end Search

end FiniteState
