/-!
# Sets of States

A finite set of states, kept as the number whose binary digit `s` is one exactly if the state `s`
belongs to the set. Two sets with the same members are then the same value, and a union is a single
operation on numbers, which is what the subset construction spends its time on. Members are listed
by taking the greatest one away again and again, so that a small set is listed in a few steps
however great its members are.

## Main definitions

* `StateSet`: A finite set of states.
* `StateSet.insert`, `StateSet.erase`, `StateSet.union`: The operations on members.
* `StateSet.meets`: Whether two sets share a member.
* `StateSet.ofList`, `StateSet.toList`: The set of a list, and the members in ascending order.
* `StateSet.numbers`: The members as they are handed in from outside.
* `StateSet.unionOf`: The union of a family of sets over the members of a set.

## Theorems

* `StateSet.ext_mem`: Sets with the same members are equal.
* `StateSet.mem_insert`, `StateSet.mem_erase`, `StateSet.mem_union`, `StateSet.mem_ofList`,
  `StateSet.mem_toList`, `StateSet.mem_unionOf`: The members of each result.
-/

namespace FiniteState

/-- A finite set of states, as the number with a one at the place of each member. -/
structure StateSet where
  bits : Nat
deriving DecidableEq

namespace StateSet

/-- The set without members. -/
def empty : StateSet := ⟨0⟩

instance : EmptyCollection StateSet := ⟨empty⟩

instance : Inhabited StateSet := ⟨empty⟩

instance : Membership Nat StateSet := ⟨fun states s => states.bits.testBit s = true⟩

instance (s : Nat) (states : StateSet) : Decidable (s ∈ states) :=
  inferInstanceAs (Decidable (states.bits.testBit s = true))

/-- The set with one more member. -/
def insert (states : StateSet) (s : Nat) : StateSet :=
  ⟨states.bits ||| 1 <<< s⟩

/-- The set without one of its members. -/
def erase (states : StateSet) (s : Nat) : StateSet :=
  if s ∈ states then ⟨states.bits ^^^ 1 <<< s⟩ else states

/-- The members of either set. -/
def union (left right : StateSet) : StateSet :=
  ⟨left.bits ||| right.bits⟩

instance : Union StateSet := ⟨union⟩

/-- Whether two sets share a member. -/
def meets (left right : StateSet) : Bool :=
  left.bits &&& right.bits != 0

/-- Whether the set has no members. -/
def isEmpty (states : StateSet) : Bool :=
  states.bits == 0

/-- The set of the members of a list. -/
def ofList (members : List Nat) : StateSet :=
  members.foldl insert ∅

/-- Take the greatest members of a set away one by one, for at most the given number of rounds, and
    put each before those found already. -/
def peel : Nat → Nat → List Nat → List Nat
  | 0, _, found => found
  | rounds + 1, bits, found =>
    if bits = 0 then found
    else
      let greatest := bits.log2
      peel rounds (bits ^^^ 1 <<< greatest) (greatest :: found)

/-- The members in ascending order. -/
def toList (states : StateSet) : List Nat :=
  peel (states.bits.log2 + 1) states.bits []

/-- The members in ascending order, as integers. -/
def numbers (states : StateSet) : List Int :=
  states.toList.map Int.ofNat

/-- The number of members. -/
def size (states : StateSet) : Nat :=
  states.toList.length

/-- The union of a family of sets over the members of a set. -/
def unionOf (states : StateSet) (family : Nat → StateSet) : StateSet :=
  states.toList.foldl (fun found s => found ∪ family s) ∅

theorem mem_def {s : Nat} {states : StateSet} : s ∈ states ↔ states.bits.testBit s = true :=
  Iff.rfl

theorem ext_mem {left right : StateSet} (h : ∀ s, s ∈ left ↔ s ∈ right) : left = right := by
  obtain ⟨m⟩ := left
  obtain ⟨n⟩ := right
  congr
  exact Nat.eq_of_testBit_eq fun s => Bool.eq_iff_iff.2 (h s)

@[simp] theorem not_mem_empty (s : Nat) : s ∉ (∅ : StateSet) := by
  simp [mem_def, EmptyCollection.emptyCollection, empty]

@[simp] theorem mem_insert {s t : Nat} {states : StateSet} :
    t ∈ states.insert s ↔ t = s ∨ t ∈ states := by
  simp only [mem_def, insert, Nat.testBit_or, Nat.one_shiftLeft, Nat.testBit_two_pow,
    Bool.or_eq_true, decide_eq_true_eq]
  rw [or_comm, eq_comm]

@[simp] theorem mem_union {s : Nat} {left right : StateSet} :
    s ∈ left ∪ right ↔ s ∈ left ∨ s ∈ right := by
  change (left.bits ||| right.bits).testBit s = true ↔ _
  simp [mem_def, Nat.testBit_or]

@[simp] theorem mem_erase {s t : Nat} {states : StateSet} :
    t ∈ states.erase s ↔ t ≠ s ∧ t ∈ states := by
  unfold erase
  split
  next h =>
    simp only [mem_def, Nat.testBit_xor, Nat.one_shiftLeft, Nat.testBit_two_pow] at h ⊢
    by_cases hts : s = t
    · subst hts
      simp [h]
    · simp [hts, Ne.symm hts]
  next h =>
    constructor
    · intro ht
      exact ⟨fun hts => h (hts ▸ ht), ht⟩
    · exact And.right

theorem mem_foldl_insert {t : Nat} (members : List Nat) (states : StateSet) :
    t ∈ members.foldl insert states ↔ t ∈ members ∨ t ∈ states := by
  induction members generalizing states with
  | nil => simp
  | cons s members ih =>
    simp only [List.foldl_cons, ih, mem_insert, List.mem_cons]
    constructor
    · rintro (h | h | h) <;> simp [h]
    · rintro ((h | h) | h) <;> simp [h]

@[simp] theorem mem_ofList {t : Nat} {members : List Nat} : t ∈ ofList members ↔ t ∈ members := by
  simp [ofList, mem_foldl_insert]

theorem xor_log2_lt {bits : Nat} (h : bits ≠ 0) :
    bits ^^^ 1 <<< bits.log2 < 1 <<< bits.log2 := by
  rw [Nat.one_shiftLeft]
  refine Nat.lt_pow_two_of_testBit _ fun s hs => ?_
  rw [Nat.testBit_xor, Nat.testBit_two_pow]
  by_cases heq : bits.log2 = s
  · simp [← heq, Nat.testBit_log2 h]
  · have hlt : bits < 2 ^ s :=
      Nat.lt_of_lt_of_le Nat.lt_log2_self (Nat.pow_le_pow_right Nat.two_pos (by omega))
    simp [heq, Nat.testBit_lt_two_pow hlt]

theorem shiftLeft_le_shiftLeft {s t : Nat} (h : s ≤ t) : 1 <<< s ≤ 1 <<< t := by
  rw [Nat.one_shiftLeft, Nat.one_shiftLeft]
  exact Nat.pow_le_pow_right Nat.two_pos h

theorem log2_lt_of_lt_shiftLeft {bits s : Nat} (h : bits ≠ 0) (hlt : bits < 1 <<< s) :
    bits.log2 < s := by
  rw [Nat.one_shiftLeft] at hlt
  exact (Nat.log2_lt h).2 hlt

theorem mem_peel {rounds bits s : Nat} {found : List Nat} (h : bits < 1 <<< rounds) :
    s ∈ peel rounds bits found ↔ bits.testBit s = true ∨ s ∈ found := by
  induction rounds generalizing bits found with
  | zero =>
    obtain rfl : bits = 0 := Nat.lt_one_iff.1 h
    simp [peel]
  | succ rounds ih =>
    unfold peel
    split
    next h0 => simp [h0]
    next h0 =>
      have hle : bits.log2 ≤ rounds := Nat.le_of_lt_succ (log2_lt_of_lt_shiftLeft h0 h)
      have hlt := Nat.lt_of_lt_of_le (xor_log2_lt h0) (shiftLeft_le_shiftLeft hle)
      rw [ih hlt, List.mem_cons, Nat.testBit_xor, Nat.one_shiftLeft, Nat.testBit_two_pow]
      by_cases heq : bits.log2 = s
      · simp [← heq, Nat.testBit_log2 h0]
      · simp [heq, Ne.symm heq]

theorem pairwise_peel {rounds bits : Nat} {found : List Nat} (hfound : found.Pairwise (· < ·))
    (hbits : ∀ s ∈ found, bits < 1 <<< s) : (peel rounds bits found).Pairwise (· < ·) := by
  induction rounds generalizing bits found with
  | zero => exact hfound
  | succ rounds ih =>
    unfold peel
    split
    next => exact hfound
    next h0 =>
      have hlog : ∀ s ∈ found, bits.log2 < s :=
        fun s hs => log2_lt_of_lt_shiftLeft h0 (hbits s hs)
      refine ih (List.pairwise_cons.2 ⟨hlog, hfound⟩) fun s hs => ?_
      refine Nat.lt_of_lt_of_le (xor_log2_lt h0) (shiftLeft_le_shiftLeft ?_)
      rcases List.mem_cons.1 hs with rfl | hs
      · exact Nat.le_refl _
      · exact Nat.le_of_lt (hlog s hs)

@[simp] theorem mem_toList {s : Nat} {states : StateSet} : s ∈ states.toList ↔ s ∈ states := by
  have hlt : states.bits < 1 <<< (states.bits.log2 + 1) := by
    rw [Nat.one_shiftLeft]
    exact Nat.lt_log2_self
  simp [toList, mem_peel hlt, mem_def]

/-- Members are listed in ascending order. -/
theorem pairwise_toList (states : StateSet) : states.toList.Pairwise (· < ·) :=
  pairwise_peel List.Pairwise.nil (by simp)

theorem mem_foldl_union {α : Type} {t : Nat} (indices : List α) (family : α → StateSet)
    (states : StateSet) :
    t ∈ indices.foldl (fun found i => found ∪ family i) states ↔
      t ∈ states ∨ ∃ i ∈ indices, t ∈ family i := by
  induction indices generalizing states with
  | nil => simp
  | cons i indices ih => simp [ih, or_assoc]

@[simp] theorem mem_unionOf {t : Nat} {states : StateSet} {family : Nat → StateSet} :
    t ∈ states.unionOf family ↔ ∃ s ∈ states, t ∈ family s := by
  simp [unionOf, mem_foldl_union]

theorem isEmpty_eq_true_iff {states : StateSet} : states.isEmpty = true ↔ states = ∅ := by
  obtain ⟨n⟩ := states
  simp [isEmpty, EmptyCollection.emptyCollection, empty]

theorem meets_eq_true_iff {left right : StateSet} :
    left.meets right = true ↔ ∃ s, s ∈ left ∧ s ∈ right := by
  simp only [meets, bne_iff_ne, ne_eq, mem_def]
  constructor
  · intro h
    obtain ⟨s, hs⟩ := Nat.exists_testBit_of_ne_zero h
    exact ⟨s, by simpa [Nat.testBit_and] using hs⟩
  · rintro ⟨s, hl, hr⟩ h
    have := congrArg (·.testBit s) h
    simp [Nat.testBit_and, hl, hr] at this

end StateSet

end FiniteState
