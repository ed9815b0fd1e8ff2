import FiniteState.Automaton.Closure
import FiniteState.Proofs.Path
import Mathlib.Data.Finset.Card
import Mathlib.Logic.Relation

/-!
# Epsilon Closures Are Exact

The search with a stack finds everything that can be reached, and the epsilon closures of an
automaton hold what epsilon paths lead to.

The search is compared with one that has no bound on its rounds and goes on until the stack is
empty. The states on the stack together with those not yet seen never outnumber the rounds that are
left, since a round takes one state from the stack and each state that it pushes was not seen
before. When no rounds are left the stack is therefore empty, so the search without a bound ends as
well. What it ends with is closed, because a state that has been seen and is no longer on the stack
has all its successors among the states seen: this is `Search.Exploring`, which every round keeps.

None of this depends on the order in which successors are taken up. The closures are computed with
one order, and a search that takes another finds the same states: `Automaton.ListsEpsilon` leaves
the order open.

## Main definitions

* `Search.unseen`: The states below a bound that have not been seen.
* `Search.Exploring`: Seen states that left the stack have their successors among those seen.
* `Search.Explores`: What a search without a bound ends with.
* `Automaton.ListsEpsilon`: The targets of the epsilon edges of every state, in any order.

## Theorems

* `Search.Exploring.step`: One round keeps the invariant.
* `Search.explores_iff`: A search without a bound ends with what enough rounds find.
* `Search.Explores.mem_iff`: Those are the states that can be reached.
* `Automaton.nodup_rows`: No target occurs twice in a row.
* `Automaton.reflTransGen_iff_path`: Paths that spell nothing are paths along epsilon edges.
* `Automaton.mem_closures`: A closure holds the states that epsilon paths lead to.
* `Automaton.closures_exact`: The searches for the closures end, and with what can be reached.
-/

namespace FiniteState

namespace Search

/-- The states below a bound that have not been seen. -/
def unseen (bound : Nat) (seen : StateSet) : Finset Nat :=
  (Finset.range bound).filter fun t => t ∉ seen

/-- The states on the stack have been seen, and the successors of every other state that has been
    seen have been seen too. -/
structure Exploring (next : Nat → List Nat) (seen : StateSet) (stack : List Nat) : Prop where
  seen_of_stack : ∀ s ∈ stack, s ∈ seen
  seen_of_next : ∀ s ∈ seen, s ∉ stack → ∀ t ∈ next s, t ∈ seen

/-- The successors of a state that are pushed, because they have not been seen. -/
def fresh (next : Nat → List Nat) (seen : StateSet) (s : Nat) : List Nat :=
  (next s).filter fun t => t ∉ seen

theorem mem_fresh {next : Nat → List Nat} {seen : StateSet} {s t : Nat} :
    t ∈ fresh next seen s ↔ t ∈ next s ∧ t ∉ seen := by
  simp [fresh]

theorem Exploring.step {next : Nat → List Nat} {seen : StateSet} {s : Nat} {stack : List Nat}
    (h : Exploring next seen (s :: stack)) :
    Exploring next ((fresh next seen s).foldl StateSet.insert seen)
      (fresh next seen s ++ stack) where
  seen_of_stack t ht := by
    rw [StateSet.mem_foldl_insert]
    rcases List.mem_append.1 ht with ht | ht
    · exact Or.inl ht
    · exact Or.inr (h.seen_of_stack t (List.mem_cons_of_mem s ht))
  seen_of_next x hx hstack t ht := by
    rw [StateSet.mem_foldl_insert] at hx ⊢
    rw [List.mem_append, not_or] at hstack
    rcases hx with hx | hx
    · exact absurd hx hstack.1
    -- A successor is pushed here if it is one of `s`, and was seen before otherwise.
    · by_cases hseen : t ∈ seen
      · exact Or.inr hseen
      · by_cases hxs : x = s
        · subst hxs
          exact Or.inl (mem_fresh.2 ⟨ht, hseen⟩)
        · have hx' : x ∉ s :: stack := by
            rw [List.mem_cons, not_or]
            exact ⟨hxs, hstack.2⟩
          exact Or.inr (h.seen_of_next x hx hx' t ht)

/-- What a round pushes is no longer unseen afterwards. -/
theorem card_unseen_step {next : Nat → List Nat} {bound : Nat} {seen : StateSet} {s : Nat}
    (hnodup : (next s).Nodup) (hbound : ∀ t ∈ next s, t < bound) :
    (unseen bound ((fresh next seen s).foldl StateSet.insert seen)).card
      + (fresh next seen s).length = (unseen bound seen).card := by
  -- What was unseen is what is still unseen together with what is pushed.
  have hcard : (fresh next seen s).length = (fresh next seen s).toFinset.card :=
    (List.toFinset_card_of_nodup (hnodup.filter _)).symm
  have hdisjoint : Disjoint (unseen bound ((fresh next seen s).foldl StateSet.insert seen))
      (fresh next seen s).toFinset := by
    rw [Finset.disjoint_left]
    intro t ht hfresh
    simp only [unseen, Finset.mem_filter, StateSet.mem_foldl_insert, not_or] at ht
    exact ht.2.1 (List.mem_toFinset.1 hfresh)
  have hunion : unseen bound ((fresh next seen s).foldl StateSet.insert seen)
      ∪ (fresh next seen s).toFinset = unseen bound seen := by
    ext t
    simp only [unseen, Finset.mem_union, Finset.mem_filter, Finset.mem_range,
      StateSet.mem_foldl_insert, List.mem_toFinset, mem_fresh]
    have := hbound t
    tauto
  rw [hcard, ← Finset.card_union_of_disjoint hdisjoint, hunion]

/-- A set that is closed under successors is not left by following them. -/
theorem mem_of_reflTransGen {next : Nat → List Nat} {seen : StateSet}
    (hclosed : ∀ s ∈ seen, ∀ t ∈ next s, t ∈ seen) {s t : Nat} (hs : s ∈ seen)
    (h : Relation.ReflTransGen (fun a b => b ∈ next a) s t) : t ∈ seen := by
  induction h with
  | refl => exact hs
  | tail _ hstep ih => exact hclosed _ ih _ hstep

/-- What a search without a bound on its rounds ends with: it goes on until the stack is empty. -/
inductive Explores (next : Nat → List Nat) : StateSet → List Nat → StateSet → Prop
  | stop {seen : StateSet} : Explores next seen [] seen
  | round {seen found : StateSet} {s : Nat} {stack : List Nat}
      (rest : Explores next ((fresh next seen s).foldl StateSet.insert seen)
        (fresh next seen s ++ stack) found) : Explores next seen (s :: stack) found

theorem Explores.unique {next : Nat → List Nat} {seen found others : StateSet} {stack : List Nat}
    (h : Explores next seen stack found) (h' : Explores next seen stack others) :
    found = others := by
  induction h with
  | stop =>
    cases h'
    rfl
  | round _ ih =>
    cases h' with
    | round rest => exact ih rest

/-- Given enough rounds, a search without a bound comes to an end, and that is with the same
    states. -/
theorem explores_iff {next : Nat → List Nat} {bound : Nat} (hnodup : ∀ s, (next s).Nodup)
    (hbound : ∀ s, ∀ t ∈ next s, t < bound) {rounds : Nat} {seen found : StateSet}
    {stack : List Nat} (hrounds : stack.length + (unseen bound seen).card ≤ rounds) :
    Explores next seen stack found ↔ found = reach next rounds seen stack := by
  have hends : Explores next seen stack (reach next rounds seen stack) := by
    induction rounds generalizing seen stack with
    | zero =>
      -- Without rounds the bound leaves no room for a stack.
      obtain rfl : stack = [] := List.eq_nil_of_length_eq_zero (by omega)
      exact .stop
    | succ rounds ih =>
      cases stack with
      | nil => exact .stop
      | cons s stack =>
        -- The round takes `s` off the stack, and every state it pushes was unseen.
        have hcard : _ = (unseen bound seen).card := card_unseen_step (hnodup s) (hbound s)
        refine .round (ih ?_)
        rw [List.length_append]
        rw [List.length_cons] at hrounds
        omega
  constructor
  · exact fun hfound => hfound.unique hends
  · rintro rfl
    exact hends

/-- A search that comes to an end has found the states that can be reached from those seen. -/
theorem Explores.mem_iff {next : Nat → List Nat} {seen found : StateSet} {stack : List Nat}
    (h : Explores next seen stack found) (hexp : Exploring next seen stack) {t : Nat} :
    t ∈ found ↔ ∃ s ∈ seen, Relation.ReflTransGen (fun a b => b ∈ next a) s t := by
  induction h with
  | stop =>
    -- With an empty stack, what has been seen is closed.
    constructor
    · intro ht
      exact ⟨t, ht, .refl⟩
    · intro h
      rcases h with ⟨s, hs, hst⟩
      exact mem_of_reflTransGen (fun s hs => hexp.seen_of_next s hs List.not_mem_nil) hs hst
  | @round seen found s stack _ ih =>
    have hs : s ∈ seen := hexp.seen_of_stack s List.mem_cons_self
    rw [ih hexp.step]
    constructor
    · intro h
      rcases h with ⟨x, hx, hxt⟩
      rcases (StateSet.mem_foldl_insert _ _).1 hx with hx | hx
      · exact ⟨s, hs, .head (mem_fresh.1 hx).1 hxt⟩
      · exact ⟨x, hx, hxt⟩
    · intro h
      rcases h with ⟨x, hx, hxt⟩
      exact ⟨x, (StateSet.mem_foldl_insert _ _).2 (Or.inr hx), hxt⟩

end Search

namespace Automaton

theorem nodup_foldr_addTarget {edges : List Edge} {rows : Array (List Nat)} {label : Option Char}
    (hedges : edges.Nodup) (hlabel : ∀ e ∈ edges, e.label = label) {s : Nat}
    (hs : s < rows.size) (hrow : rows.getD s [] = []) :
    ((edges.foldr addTarget rows).getD s []).Nodup := by
  induction edges with
  | nil =>
    rw [List.foldr_nil, hrow]
    exact List.nodup_nil
  | cons e edges ih =>
    rw [List.nodup_cons] at hedges
    have hrest := ih hedges.2 fun f hf => hlabel f (List.mem_cons_of_mem e hf)
    have hsize : s < (edges.foldr addTarget rows).size := by rwa [size_foldr_addTarget]
    have hmem : e.target ∈ (edges.foldr addTarget rows).getD s [] ↔ _ :=
      mem_foldr_addTarget hs
    simp only [Array.getD_eq_getD_getElem?, Array.getElem?_eq_getElem hsize,
      Option.getD_some] at hrest hmem
    rw [List.foldr_cons, addTarget, Array.getD_eq_getD_getElem?, Array.getElem?_modify]
    by_cases he : e.source = s
    · rw [if_pos he, Array.getElem?_eq_getElem hsize, Option.map_some, Option.getD_some,
        List.nodup_cons]
      refine ⟨fun htarget => ?_, hrest⟩
      -- The target is in the row already: then the edge itself occurs twice.
      rcases hmem.1 htarget with ⟨f, hf, hsource, htarget⟩ | hin
      · have hfe : f = e := by
          have hfl := hlabel f (List.mem_cons_of_mem e hf)
          have hel := hlabel e List.mem_cons_self
          cases f
          cases e
          simp_all
        exact hedges.1 (hfe ▸ hf)
      · rw [← Array.getD_eq_getD_getElem?, hrow] at hin
        exact absurd hin List.not_mem_nil
    · rw [if_neg he, Array.getElem?_eq_getElem hsize]
      exact hrest

theorem getD_rows_of_size_le {A : Automaton} {label : Option Char} {s : Nat} (hs : A.size ≤ s) :
    (A.rows label).getD s [] = [] := by
  have hsize : (A.rows label).size ≤ s := by
    rw [rows, size_foldr_addTarget, Array.size_replicate]
    exact hs
  rw [Array.getD_eq_getD_getElem?, Array.getElem?_eq_none hsize, Option.getD_none]

/-- No target occurs twice in a row. -/
theorem nodup_rows (A : Automaton) (label : Option Char) (s : Nat) :
    ((A.rows label).getD s []).Nodup := by
  by_cases hs : s < A.size
  · have hlabel : ∀ e ∈ A.edges.toList.filter (·.label == label), e.label = label :=
      fun e he => by simpa using (List.mem_filter.1 he).2
    refine nodup_foldr_addTarget ?_ hlabel (by simpa using hs) ?_
    · exact A.edges.distinct_toList.imp (fun hne heq => hne (by simp [heq])) |>.filter _
    · simp [Array.getD_eq_getD_getElem?, hs]
  · rw [getD_rows_of_size_le (Nat.le_of_not_lt hs)]
    exact List.nodup_nil

/-- Rows hold the targets of edges, for every number as a source. -/
theorem mem_getD_rows {A : Automaton} (hA : A.WellFormed) {label : Option Char} {s t : Nat} :
    t ∈ (A.rows label).getD s [] ↔ ⟨s, t, label⟩ ∈ A.edges := by
  by_cases hs : s < A.size
  · exact mem_rows hs
  · rw [getD_rows_of_size_le (Nat.le_of_not_lt hs)]
    constructor
    · exact fun h => absurd h List.not_mem_nil
    · exact fun h => absurd (hA.source_lt _ h) hs

/-- A path that spells nothing is a path along epsilon edges only. -/
theorem reflTransGen_iff_path {A : Automaton} {s t : Nat} :
    Relation.ReflTransGen (fun a b => Edge.epsilon a b ∈ A.edges) s t ↔ A.Path s [] t := by
  constructor
  · intro h
    induction h with
    | refl => exact .nil s
    | tail _ hstep ih => exact ih.append (path_of_edge hstep)
  · intro h
    -- The word is generalized, since the induction is on the path and cuts it off edge by edge.
    generalize hword : ([] : List Char) = word at h
    induction h with
    | nil => exact .refl
    | @cons s m t label word edge _ ih =>
      rcases List.append_eq_nil_iff.1 hword.symm with ⟨hlabel, hnil⟩
      cases label with
      | none => exact .head edge (ih hnil.symm)
      | some c => exact absurd hlabel (List.cons_ne_nil c [])

/-- A list for every state of the states that its epsilon edges lead to, each of them once and in
    any order. -/
structure ListsEpsilon (A : Automaton) (next : Nat → List Nat) : Prop where
  nodup : ∀ s, (next s).Nodup
  mem_iff : ∀ s t, t ∈ next s ↔ Edge.epsilon s t ∈ A.edges

theorem listsEpsilon_rows {A : Automaton} (hA : A.WellFormed) :
    A.ListsEpsilon fun s => (A.rows none).getD s [] where
  nodup s := A.nodup_rows none s
  mem_iff _ _ := mem_getD_rows hA

section Searches

variable {A : Automaton} {next : Nat → List Nat} {s t : Nat} {found : StateSet}

/-- As many rounds as there are states are enough for the search from one state. -/
theorem ListsEpsilon.explores_iff (hnext : A.ListsEpsilon next) (hA : A.WellFormed)
    (hs : s < A.size) :
    Search.Explores next (.ofList [s]) [s] found ↔
      found = Search.reach next A.size (.ofList [s]) [s] := by
  -- One state is on the stack, and the others are unseen.
  have hrounds : [s].length + (Search.unseen A.size (.ofList [s])).card ≤ A.size := by
    have hunseen : Search.unseen A.size (.ofList [s]) = (Finset.range A.size).erase s := by
      ext x
      simp [Search.unseen, and_comm]
    rw [hunseen, Finset.card_erase_of_mem (Finset.mem_range.2 hs), Finset.card_range,
      List.length_singleton]
    omega
  exact Search.explores_iff hnext.nodup
    (fun x y hy => hA.target_lt _ ((hnext.mem_iff x y).1 hy)) hrounds

/-- The search from one state finds what epsilon paths lead to. -/
theorem ListsEpsilon.mem_reach (hnext : A.ListsEpsilon next) (hA : A.WellFormed)
    (hs : s < A.size) :
    t ∈ Search.reach next A.size (.ofList [s]) [s] ↔ A.Path s [] t := by
  have hexp : Search.Exploring next (.ofList [s]) [s] := by
    refine ⟨fun x hx => StateSet.mem_ofList.2 hx, fun x hx hstack => ?_⟩
    exact absurd (StateSet.mem_ofList.1 hx) hstack
  rw [((hnext.explores_iff hA hs).2 rfl).mem_iff hexp]
  simp only [StateSet.mem_ofList, List.mem_singleton, exists_eq_left, hnext.mem_iff]
  exact reflTransGen_iff_path

theorem getElem?_closures (hs : s < A.size) : A.closures[s]? = some
    (Search.reach (fun t => (A.rows none).getD t []) A.size (.ofList [s]) [s]) := by
  simp [closures, hs]

/-- The closure of a state holds the states that epsilon paths lead to. -/
theorem mem_closures (hA : A.WellFormed) (hs : s < A.size) :
    t ∈ A.closures.getD s ∅ ↔ A.Path s [] t := by
  rw [Array.getD_eq_getD_getElem?, getElem?_closures hs, Option.getD_some]
  exact (listsEpsilon_rows hA).mem_reach hA hs

/-- The search for the closure of a state comes to an end. -/
theorem explores_closure_iff (hA : A.WellFormed) (hs : s < A.size) :
    Search.Explores (fun t => (A.rows none).getD t []) (.ofList [s]) [s] found ↔
      found = A.closures.getD s ∅ := by
  rw [Array.getD_eq_getD_getElem?, getElem?_closures hs, Option.getD_some]
  exact (listsEpsilon_rows hA).explores_iff hA hs

end Searches

/-- Epsilon closures are exact. There is one for every state; in whichever order the search for it
    takes up the targets of epsilon edges, it comes to an end, and with this set; and the set holds
    the states that epsilon edges lead to, any number of them one after another. -/
theorem closures_exact {A : Automaton} (hA : A.WellFormed) :
    A.closures.size = A.size ∧ ∀ s < A.size, ∃ closure, A.closures[s]? = some closure ∧
      (∀ next, A.ListsEpsilon next → ∀ found,
        Search.Explores next (.ofList [s]) [s] found ↔ found = closure) ∧
      ∀ t, t ∈ closure ↔ Relation.ReflTransGen (fun a b => Edge.epsilon a b ∈ A.edges) s t := by
  refine ⟨by simp [closures], fun s hs => ⟨_, getElem?_closures hs, ?_, ?_⟩⟩
  · intro next hnext found
    -- Both searches find what epsilon paths lead to, so the order makes no difference.
    have hsame : Search.reach next A.size (.ofList [s]) [s]
        = Search.reach (fun t => (A.rows none).getD t []) A.size (.ofList [s]) [s] := by
      refine StateSet.ext_mem fun t => ?_
      rw [hnext.mem_reach hA hs, (listsEpsilon_rows hA).mem_reach hA hs]
    rw [hnext.explores_iff hA hs, hsame]
  · intro t
    rw [(listsEpsilon_rows hA).mem_reach hA hs]
    exact reflTransGen_iff_path.symm

/-- An automaton with a cycle of epsilon edges, an epsilon edge from a state to itself, and an edge
    with a symbol beside an epsilon edge. -/
def winding : Automaton where
  size := 4
  starting := .ofList [0]
  final := .ofList [2]
  edges := .ofList [Edge.epsilon 0 1, ⟨0, 1, some 'a'⟩, Edge.epsilon 1 0, Edge.epsilon 1 2,
    Edge.epsilon 2 2, ⟨2, 3, some 'b'⟩, Edge.epsilon 3 1]

theorem closures_exact_winding : winding.WellFormed ∧ winding.closures.size = winding.size ∧
    ∀ s < winding.size, ∃ closure, winding.closures[s]? = some closure ∧
      (∀ next, winding.ListsEpsilon next → ∀ found,
        Search.Explores next (.ofList [s]) [s] found ↔ found = closure) ∧
      ∀ t, t ∈ closure ↔
        Relation.ReflTransGen (fun a b => Edge.epsilon a b ∈ winding.edges) s t :=
  ⟨by decide +kernel, closures_exact (by decide +kernel)⟩

example : winding.closures =
    #[.ofList [0, 1, 2], .ofList [0, 1, 2], .ofList [2], .ofList [0, 1, 2, 3]] := by
  decide +kernel

end Automaton

end FiniteState
