import FiniteState.Pattern.Expression
import FiniteState.Proofs.Recording

/-!
# Separation

Whatever is done to a store to make a new automaton, the automata that were there before are as they
were, and the new one is at an address that none of them has. No operation says so: an automaton is
made by changing a cell of the store in place, again and again, and it is up to the operation to
change the right one. That it does is proved once for the three steps that operations are made of.
A cell is only changed if it has come after all others, as the cell of a copy has, which is what
makes a copy out of it.

The base of the comparison is a store from any time before. So what one operation leaves alone is
left alone by a sequence of them, also by one that fails half way and leaves automata behind. All
automata of the store stay consistent, those that are left behind unfinished included.

## Main definitions

* `Store.Sound`: All automata of a store are consistent.
* `Store.Keeps`: The automata of an earlier store are as they were.
* `Address.Since`: An address has come after an earlier store.

## Theorems

* `Store.Keeps.push`, `Store.Keeps.put`: What the steps keep.
* `Store.Keeps.restore_eq`: Giving up the new automata leads back to the earlier store.
* `Store.maintains_edit`: Changing an automaton that has come since.
* `Store.maintains_create` and so on: The operations keep an earlier store.
* `Regex.maintains_construct`, `Pattern.maintains_build`, `Expression.maintains_ofPattern`: So does
  making the automaton of a tree, of a pattern, and a regular expression.
-/

namespace FiniteState

/-- An address has come after an earlier store. -/
def Address.Since (base : Store) (a : Address) : Prop :=
  base.size ≤ a.index

namespace Store

variable {base store later : Store} {a b : Address} {A : Stored}

/-- All automata of a store are consistent. -/
def Sound (store : Store) : Prop :=
  ∀ A ∈ store.cells, A.Consistent

/-- The automata of an earlier store are as they were, and new ones are consistent if those were. -/
structure Keeps (base store : Store) : Prop where
  size_le : base.size ≤ store.size
  cell_eq : ∀ a : Address, a.index < base.size → store.cell a = base.cell a
  sound : base.Sound → store.Sound

/-! ### Cells -/

section Cells

theorem cell_eq_getElem (h : a.index < store.cells.size) : store.cell a = store.cells[a.index] := by
  rw [cell, Array.getD_eq_getD_getElem?, Array.getElem?_eq_getElem h, Option.getD_some]

@[simp] theorem size_put (store : Store) (a : Address) (A : Stored) :
    (store.put a A).size = store.size :=
  Array.size_setIfInBounds

@[simp] theorem size_push (store : Store) (A : Stored) : (store.push A).size = store.size + 1 :=
  Array.size_push A

theorem cell_put_of_ne (h : a.index ≠ b.index) : (store.put a A).cell b = store.cell b := by
  simp [cell, put, Array.getD_eq_getD_getElem?, Array.getElem?_setIfInBounds_ne h]

theorem cell_put_self (h : a.index < store.size) : (store.put a A).cell a = A := by
  simp [cell, put, Array.getD_eq_getD_getElem?, Array.getElem?_setIfInBounds_self_of_lt h]

/-- An automaton that is put where it is changes nothing. -/
theorem put_cell (store : Store) (a : Address) : store.put a (store.cell a) = store := by
  refine congrArg Store.mk (Array.ext (by simp) fun i hi hi' => ?_)
  rw [Array.getElem_setIfInBounds hi']
  split
  next h =>
    subst h
    exact cell_eq_getElem hi'
  next => rfl

/-- Of two automata that are put at an address, the second stays. -/
@[simp] theorem put_put (store : Store) (a : Address) (A B : Stored) :
    (store.put a A).put a B = store.put a B := by
  simp [put]

theorem cell_push_of_lt (h : a.index < store.size) : (store.push A).cell a = store.cell a := by
  have hne : a.index ≠ store.cells.size := Nat.ne_of_lt h
  simp [cell, push, Array.getD_eq_getD_getElem?, Array.getElem?_push, hne]

theorem cell_push_self (store : Store) (A : Stored) : (store.push A).cell ⟨store.size⟩ = A := by
  simp [cell, push, size, Array.getD_eq_getD_getElem?]

/-- There is a blank automaton wherever there is none. -/
theorem cell_of_le (h : store.size ≤ a.index) : store.cell a = .blank 0 := by
  have hnone : store.cells[a.index]? = none := Array.getElem?_eq_none h
  rw [cell, Array.getD_eq_getD_getElem?, hnone]
  rfl

theorem sound_iff : store.Sound ↔ ∀ a, (store.cell a).Consistent := by
  constructor
  · intro h a
    by_cases ha : a.index < store.size
    · rw [cell_eq_getElem ha]
      exact h _ (Array.getElem_mem ha)
    -- Behind the last cell there is the blank automaton, which is consistent too.
    · rw [cell_of_le (Nat.not_lt.1 ha)]
      exact Stored.consistent_blank 0
  · intro h A hA
    rcases Array.getElem_of_mem hA with ⟨i, hi, rfl⟩
    rw [← cell_eq_getElem (a := ⟨i⟩) hi]
    exact h ⟨i⟩

theorem sound_empty : Sound ∅ :=
  fun A hA => absurd hA (Array.not_mem_empty A)

theorem Sound.push (h : store.Sound) (hA : A.Consistent) : (store.push A).Sound := by
  intro B hB
  rcases Array.mem_push.1 hB with hB | rfl
  · exact h B hB
  · exact hA

theorem Sound.put (h : store.Sound) (hA : A.Consistent) : (store.put a A).Sound := by
  rw [sound_iff] at h ⊢
  intro b
  by_cases hb : a.index = b.index
  -- A change to a cell that is not there does nothing.
  · by_cases hlt : a.index < store.size
    · have hself := cell_put_self (A := A) hlt
      rw [show b = a from congrArg Address.mk hb.symm, hself]
      exact hA
    · rw [cell_of_le (by rw [size_put]; omega)]
      exact Stored.consistent_blank 0
  · rw [cell_put_of_ne hb]
    exact h b

end Cells

/-! ### An earlier store -/

section Keeps

theorem Keeps.refl (store : Store) : Keeps store store :=
  ⟨le_rfl, fun _ _ => rfl, id⟩

theorem Keeps.trans (h : Keeps base store) (hlater : Keeps store later) : Keeps base later where
  size_le := h.size_le.trans hlater.size_le
  cell_eq a ha := (hlater.cell_eq a (ha.trans_le h.size_le)).trans (h.cell_eq a ha)
  sound hbase := hlater.sound (h.sound hbase)

/-- A new cell comes after all others. -/
theorem Keeps.push (h : Keeps base store) (hA : A.Consistent) : Keeps base (store.push A) where
  size_le := by
    rw [size_push]
    exact h.size_le.trans (Nat.le_succ _)
  cell_eq a ha := by
    rw [cell_push_of_lt (ha.trans_le h.size_le)]
    exact h.cell_eq a ha
  sound hbase := (h.sound hbase).push hA

/-- What has come since may change. -/
theorem Keeps.put (h : Keeps base store) (ha : a.Since base)
    (hA : base.Sound → A.Consistent) : Keeps base (store.put a A) where
  size_le := by
    rw [size_put]
    exact h.size_le
  cell_eq b hb := by
    -- The cells of the base are below the changed one.
    rw [cell_put_of_ne (Nat.ne_of_gt (hb.trans_le ha))]
    exact h.cell_eq b hb
  sound hbase := (h.sound hbase).put (hA hbase)

/-- Giving up what has come since leads back to the earlier store. -/
theorem Keeps.restore_eq (h : Keeps base store) : store.restore base = base := by
  have hsize : base.cells.size ≤ store.cells.size := h.size_le
  refine congrArg Store.mk (Array.ext (by simpa [size] using hsize) fun i hi hi' => ?_)
  have hcell := h.cell_eq ⟨i⟩ hi'
  rw [cell_eq_getElem hi', cell_eq_getElem (hi'.trans_le hsize)] at hcell
  simpa using hcell

end Keeps

/-! ### The three steps -/

section Steps

variable {change : Stored.Action Unit}

theorem maintains_allocate (hA : A.Consistent) :
    Maintains (Keeps base) (allocate A) (Address.Since base) :=
  fun _ h => .ok (h.push hA) h.size_le

theorem maintains_read (a : Address) : Maintains (Keeps base) (read a) fun _ => True :=
  fun _ h => .ok h trivial

/-- An automaton that has come since is changed in place. -/
theorem maintains_edit (ha : a.Since base)
    (hchange : Maintains Stored.Consistent change fun _ => True) :
    Maintains (Keeps base) (edit a change) fun _ => True := by
  intro store h
  -- The change is asked to preserve consistency only if all cells had it to begin with.
  have hcell : base.Sound → EndsIn Stored.Consistent (fun _ => True) (change (store.cell a)) :=
    fun hbase => hchange _ (sound_iff.1 (h.sound hbase) a)
  unfold edit
  generalize change (store.cell a) = result at hcell ⊢
  cases result with
  | ok value B =>
    refine .ok (h.put ha fun hbase => ?_) trivial
    cases hcell hbase with
    | ok hB => exact hB
  | error fault B =>
    refine .error (h.put ha fun hbase => ?_)
    cases hcell hbase with
    | error hB => exact hB

end Steps

/-! ### Operations -/

section Operations

variable {make : Action Address} {change : Stored.Action Unit}

/-- A new automaton may be changed before it is handed out. -/
theorem maintains_fill (hmake : Maintains (Keeps base) make (Address.Since base))
    (hchange : Maintains Stored.Consistent change fun _ => True) :
    Maintains (Keeps base) (do let a ← make; edit a change; return a) (Address.Since base) :=
  hmake.bind fun _ ha => (maintains_edit ha hchange).bind fun _ _ => maintains_pure ha

theorem maintains_create (count : Int) (starting final : List Int) :
    Maintains (Keeps base) (create count starting final) (Address.Since base) := by
  unfold create
  refine maintains_guard ?_
  exact maintains_fill (maintains_allocate (Stored.consistent_blank _))
    (Stored.maintains_mark starting final)

theorem maintains_ofRelation (count : Int) (relation : List (Int × String × Int))
    (starting final : List Int) :
    Maintains (Keeps base) (ofRelation count relation starting final) (Address.Since base) :=
  maintains_fill (maintains_create count starting final) (Stored.maintains_connectAll relation)

theorem maintains_ofMatrix (rows : List (List (List String))) (starting final : List Int) :
    Maintains (Keeps base) (ofMatrix rows starting final) (Address.Since base) :=
  maintains_fill (maintains_create _ starting final) (Stored.maintains_connectMatrix rows)

theorem maintains_ofTable (alphabet : List String) (table : List (List (List Int)))
    (starting final : List Int) :
    Maintains (Keeps base) (ofTable alphabet table starting final) (Address.Since base) :=
  maintains_fill (maintains_create _ starting final) (Stored.maintains_connectTable _ table)

theorem maintains_rebuild (B : Automaton) :
    Maintains (Keeps base) (rebuild B) (Address.Since base) :=
  maintains_ofRelation _ _ _ _

theorem maintains_copy (a : Address) : Maintains (Keeps base) (copy a) (Address.Since base) :=
  (maintains_read a).bind fun B _ => maintains_rebuild B

theorem maintains_reverse (a : Address) :
    Maintains (Keeps base) (reverse a) (Address.Since base) :=
  (maintains_read a).bind fun _ _ => maintains_ofRelation _ _ _ _

theorem maintains_determinize (a : Address) :
    Maintains (Keeps base) (determinize a) (Address.Since base) :=
  (maintains_read a).bind fun _ _ => maintains_ofTable _ _ _ _

theorem maintains_minimize (a : Address) :
    Maintains (Keeps base) (minimize a) (Address.Since base) :=
  (maintains_reverse a).bind fun b _ => (maintains_determinize b).bind fun c _ =>
    (maintains_reverse c).bind fun d _ => maintains_determinize d

theorem maintains_ends (a : Address) : Maintains (Keeps base) (ends a) fun _ => True := by
  refine (maintains_read a).bind fun B _ => ?_
  cases B.ends with
  | ok span => exact maintains_pure trivial
  | error fault => exact maintains_throw fault

/-- Members are copied into an automaton that is new, and they are only read. -/
theorem maintains_copyInto (ha : a.Since base) (offset : Nat) (members : List Address) :
    Maintains (Keeps base) (copyInto a offset members) fun _ => True := by
  induction members generalizing offset with
  | nil => exact maintains_pure trivial
  | cons b members ih =>
    -- The members may be old ones, but nothing is done to them.
    refine (maintains_read b).bind fun B _ => ?_
    refine (maintains_edit ha (Stored.maintains_connectAll _)).bind fun _ _ => ?_
    refine (maintains_ends b).bind fun span _ => (ih _).bind fun spans _ => ?_
    exact maintains_pure trivial

theorem maintains_splice (members : List Address) :
    Maintains (Keeps base) (splice members) fun result => result.1.Since base := by
  refine (maintains_mapM fun b _ => maintains_ends b).bind fun _ _ => ?_
  have hsizes : Maintains (Keeps base) (members.mapM fun b => do return (← read b).size)
      fun sizes => ∀ size ∈ sizes, True :=
    maintains_mapM fun b _ => (maintains_read b).bind fun _ _ => maintains_pure trivial
  refine hsizes.bind fun sizes _ => (maintains_create _ _ _).bind fun result hresult => ?_
  exact (maintains_copyInto hresult 1 members).bind fun spans _ => maintains_pure hresult

theorem maintains_concatenation (members : List Address) :
    Maintains (Keeps base) (concatenation members) (Address.Since base) := by
  refine (maintains_splice members).bind fun result hresult => ?_
  refine (maintains_read result.1).bind fun _ _ => ?_
  exact maintains_fill (maintains_pure hresult) (Stored.maintains_connectAll _)

theorem maintains_disjunction (members : List Address) :
    Maintains (Keeps base) (disjunction members) (Address.Since base) := by
  refine (maintains_splice members).bind fun result hresult => ?_
  refine (maintains_read result.1).bind fun _ _ => ?_
  exact maintains_fill (maintains_pure hresult) (Stored.maintains_connectAll _)

/-- The link is added to a copy, not to the automaton itself. -/
theorem maintains_linked (a : Address) (link : Ends → Edge) :
    Maintains (Keeps base) (linked a link) (Address.Since base) :=
  (maintains_ends a).bind fun _ _ =>
    maintains_fill (maintains_copy a) (Stored.maintains_connectAll _)

theorem maintains_option (a : Address) : Maintains (Keeps base) (option a) (Address.Since base) :=
  maintains_linked a _

theorem maintains_iteration (a : Address) :
    Maintains (Keeps base) (iteration a) (Address.Since base) :=
  maintains_linked a _

end Operations

end Store

/-! ### Trees and patterns -/

section Patterns

variable {base : Store}

theorem Regex.maintains_connectCharacters (characters : List Char) :
    Maintains Stored.Consistent (connectCharacters characters) fun _ => True :=
  Stored.maintains_connectAll _

theorem Regex.maintains_constructLeaf {edges : Stored.Action Unit}
    (h : Maintains Stored.Consistent edges fun _ => True) :
    Maintains (Store.Keeps base) (constructLeaf edges) (Address.Since base) :=
  Store.maintains_fill (Store.maintains_create 2 [0] [1]) h

namespace Regex

mutual

theorem maintains_construct :
    ∀ node : Regex, Maintains (Store.Keeps base) node.construct (Address.Since base)
  | character characters => maintains_constructLeaf (maintains_connectCharacters characters)
  | characterSet _ =>
    maintains_constructLeaf (maintains_forM fun _ _ => maintains_connectCharacters _)
  | wildcard => maintains_constructLeaf (maintains_connectCharacters symbols)
  | missing => maintains_constructLeaf (maintains_throw _)
  | concatenation parts =>
    -- The members are new as well, and a combination leaves them as they are.
    (maintains_constructAll parts).bind fun members _ => Store.maintains_concatenation members
  | alternation branches =>
    (maintains_constructAll branches).bind fun members _ => Store.maintains_disjunction members
  | iteration body => (maintains_construct body).bind fun a _ => Store.maintains_iteration a
  | optional body => (maintains_construct body).bind fun a _ => Store.maintains_option a

theorem maintains_constructAll :
    ∀ nodes : List Regex, Maintains (Store.Keeps base) (constructAll nodes) fun _ => True
  | [] => maintains_pure trivial
  | node :: rest =>
    (maintains_construct node).bind fun _ _ => (maintains_constructAll rest).bind fun _ _ =>
      maintains_pure trivial

end

end Regex

theorem Pattern.maintains_construct (pattern : List Char) :
    Maintains (Store.Keeps base) (construct pattern) (Address.Since base) := by
  unfold construct
  cases parse pattern with
  | ok node => exact (Regex.maintains_construct node).adapt _
  | error error => exact maintains_throw _

theorem Pattern.maintains_build (pattern : List Char) :
    Maintains (Store.Keeps base) (build pattern) (Address.Since base) :=
  (maintains_construct pattern).bind fun a _ => (Store.maintains_minimize a).adapt _

/-- The automaton of a regular expression is a new one. -/
theorem Expression.maintains_ofPattern (pattern : List Char) :
    Maintains (Store.Keeps base) (ofPattern pattern) fun e => e.automaton.Since base :=
  (Pattern.maintains_build pattern).bind fun _ ha =>
    maintains_get.bind fun _ _ => maintains_pure ha

end Patterns

end FiniteState
