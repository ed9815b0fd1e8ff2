import FiniteState.Description.Reader
import FiniteState.Proofs.Outcomes
import Mathlib.Data.List.Nodup

/-!
# The Order of State Names

Names are sorted by their keys, and keys are in a linear order: numbers by their values, then words
by their code points. So the names of a description end up in the same order however they are
listed, as long as no two of them have the same key, and a list that is in order already must be
what sorting comes to. The names `0`, `1`, … are in order, since each of them is read as the number
that it is the numeral of.

## Main definitions

* `Description.keyOf`: The key of a name that has one.
* `Description.precedes`: A name does not come after another.

## Theorems

* `Description.sortNames_eq_ok_iff`: Names are sorted if all of them have keys.
* `Description.sortNames_of_perm`: Names with different keys are sorted alike in whatever order they
  are listed.
* `Description.nameKey_toDigits`: The key of a decimal numeral is the number.
* `Description.sortNames_countedNames`: The names of counted states are in order.
-/

namespace FiniteState

namespace Description

namespace NameKey

instance : Std.LawfulEqCmp NameKey.compare where
  compare_self {key} := by
    cases key with
    | number value => exact (Std.ReflCmp.compare_self : Ord.compare value value = .eq)
    | word text => exact (Std.ReflCmp.compare_self : Ord.compare text text = .eq)
  eq_of_compare {key other} h := by
    cases key with
    | number value =>
      cases other with
      | number value' =>
        have hvalue : Ord.compare value value' = .eq := h
        rw [Std.LawfulEqCmp.eq_of_compare hvalue]
      | word text' => exact nomatch h
    | word text =>
      cases other with
      | number value' => exact nomatch h
      | word text' =>
        have htext : Ord.compare text text' = .eq := h
        rw [Std.LawfulEqCmp.eq_of_compare htext]

instance : Std.TransCmp NameKey.compare where
  eq_swap {key other} := by
    cases key with
    | number value =>
      cases other with
      | number value' =>
        exact (Std.OrientedCmp.eq_swap : Ord.compare value value' = (Ord.compare value' value).swap)
      | word text' => rfl
    | word text =>
      cases other with
      | number value' => rfl
      | word text' =>
        exact (Std.OrientedCmp.eq_swap : Ord.compare text text' = (Ord.compare text' text).swap)
  isLE_trans {first second third} h h' := by
    -- A word is never at most a number, so the kinds go from numbers to words.
    cases first with
    | number value =>
      cases third with
      | word text => rfl
      | number value'' =>
        cases second with
        | number value' =>
          have hfirst : (Ord.compare value value').isLE = true := h
          have hsecond : (Ord.compare value' value'').isLE = true := h'
          exact (Std.TransCmp.isLE_trans hfirst hsecond :)
        | word text' => exact nomatch h'
    | word text =>
      cases second with
      | number value' => exact nomatch h
      | word text' =>
        cases third with
        | number value'' => exact nomatch h'
        | word text'' =>
          have hfirst : (Ord.compare text text').isLE = true := h
          have hsecond : (Ord.compare text' text'').isLE = true := h'
          exact (Std.TransCmp.isLE_trans hfirst hsecond :)

end NameKey

/-- The key of a name that has one. -/
def keyOf (limit : Nat) (name : List Char) : NameKey :=
  match nameKey limit name with
  | .ok key => key
  | .error _ => .word name

/-- A name does not come after another. -/
def precedes (limit : Nat) (v w : List Char) : Bool :=
  ((keyOf limit v).compare (keyOf limit w)).isLE

variable {limit : Nat} {names others sorted : List (List Char)} {v w : List Char}

theorem keyOf_eq {key : NameKey} (h : nameKey limit v = .ok key) : keyOf limit v = key := by
  rw [keyOf, h]

theorem precedes_trans (u v w : List Char) (huv : precedes limit u v = true)
    (hvw : precedes limit v w = true) : precedes limit u w = true :=
  (Std.TransCmp.isLE_trans huv hvw :)

theorem precedes_total (v w : List Char) : (precedes limit v w || precedes limit w v) = true := by
  have hswap : (keyOf limit v).compare (keyOf limit w) =
      ((keyOf limit w).compare (keyOf limit v)).swap := Std.OrientedCmp.eq_swap
  rw [precedes, precedes, hswap]
  cases (keyOf limit w).compare (keyOf limit v) <;> rfl

theorem keyOf_eq_of_precedes (hvw : precedes limit v w = true) (hwv : precedes limit w v = true) :
    keyOf limit v = keyOf limit w :=
  Std.LawfulEqCmp.eq_of_compare (Std.OrientedCmp.isLE_antisymm hvw hwv)

theorem keyed_eq_ok_iff {entry : NameKey × List Char} :
    (do return (← nameKey limit v, v)) = (.ok entry : Except Fault (NameKey × List Char)) ↔
      nameKey limit v = .ok entry.1 ∧ entry.2 = v := by
  obtain ⟨key, name⟩ := entry
  rw [bind_eq_ok_iff]
  simp [pure, Except.pure, eq_comm]

/-- Names are put beside their keys if all of them have keys. -/
theorem mapM_keyed_eq_ok_iff {keyed : List (NameKey × List Char)} :
    (names.mapM fun name => do return (← nameKey limit name, name)) =
        (.ok keyed : Except Fault (List (NameKey × List Char))) ↔
      (∀ name ∈ names, ∃ key, nameKey limit name = .ok key) ∧
        keyed = names.map fun name => (keyOf limit name, name) := by
  rw [mapM_eq_ok_iff]
  simp only [keyed_eq_ok_iff]
  constructor
  · intro h
    induction h with
    | nil => simp
    | @cons name entry names keyed hentry _ ih =>
      rcases hentry with ⟨hkey, rfl⟩
      refine ⟨List.forall_mem_cons.2 ⟨⟨_, hkey⟩, ih.1⟩, ?_⟩
      rw [List.map_cons, ← ih.2, keyOf_eq hkey]
  · intro h
    rcases h with ⟨hkeys, rfl⟩
    -- Both sides are the same list of names, so the pairs are compared place by place.
    rw [List.forall₂_map_right_iff, List.forall₂_same]
    intro name hname
    rcases hkeys name hname with ⟨key, hkey⟩
    exact ⟨by rw [hkey, keyOf_eq hkey], rfl⟩

/-- Sorting names beside their keys is sorting the names. -/
theorem map_snd_mergeSort (names : List (List Char)) :
    ((names.map fun name => (keyOf limit name, name)).mergeSort
      fun a b => (a.1.compare b.1).isLE).map Prod.snd = names.mergeSort (precedes limit) := by
  rw [List.map_mergeSort (s := precedes limit), List.map_map]
  · exact congrArg (List.mergeSort · (precedes limit)) (List.map_id names)
  · intro a ha b hb
    rcases List.mem_map.1 ha with ⟨v, -, rfl⟩
    rcases List.mem_map.1 hb with ⟨w, -, rfl⟩
    rfl

/-- Names are sorted if all of them have keys. -/
theorem sortNames_eq_ok_iff :
    sortNames limit names = .ok sorted ↔
      (∀ name ∈ names, ∃ key, nameKey limit name = .ok key) ∧
        names.mergeSort (precedes limit) = sorted := by
  rw [sortNames, bind_eq_ok_iff]
  constructor
  · intro h
    rcases h with ⟨keyed, hkeys, hresult⟩
    rcases mapM_keyed_eq_ok_iff.1 hkeys with ⟨hall, rfl⟩
    exact ⟨hall, (map_snd_mergeSort names).symm.trans (Except.ok.inj hresult)⟩
  · intro h
    rcases h with ⟨hall, rfl⟩
    exact ⟨_, mapM_keyed_eq_ok_iff.2 ⟨hall, rfl⟩, congrArg Except.ok (map_snd_mergeSort names)⟩

/-- Names that are in order already, with different keys, are what sorting them comes to. -/
theorem mergeSort_eq_of_perm (hperm : sorted.Perm names)
    (hsorted : sorted.Pairwise fun v w => precedes limit v w = true)
    (hkeys : ∀ v ∈ names, ∀ w ∈ names, keyOf limit v = keyOf limit w → v = w) :
    names.mergeSort (precedes limit) = sorted := by
  refine List.Perm.eq_of_pairwise (fun v w hv hw hvw hwv => ?_)
    (List.pairwise_mergeSort precedes_trans precedes_total names) hsorted
    ((List.mergeSort_perm names _).trans hperm.symm)
  exact hkeys v (List.mem_mergeSort.1 hv) w (hperm.mem_iff.1 hw) (keyOf_eq_of_precedes hvw hwv)

/-- Names with different keys are sorted alike in whatever order they are listed. -/
theorem sortNames_of_perm (hperm : names.Perm others)
    (hkeys : ∀ v ∈ names, ∀ w ∈ names, ∀ key, nameKey limit v = .ok key →
      nameKey limit w = .ok key → v = w) :
    Agree Eq (sortNames limit names) (sortNames limit others) := by
  by_cases hall : ∀ name ∈ names, ∃ key, nameKey limit name = .ok key
  · have hothers : ∀ name ∈ others, ∃ key, nameKey limit name = .ok key :=
      fun name hname => hall name (hperm.mem_iff.2 hname)
    have hkeyOf : ∀ v ∈ names, ∀ w ∈ names, keyOf limit v = keyOf limit w → v = w := by
      intro v hv w hw h
      rcases hall v hv with ⟨key, hkey⟩
      rcases hall w hw with ⟨key', hkey'⟩
      rw [keyOf_eq hkey, keyOf_eq hkey'] at h
      exact hkeys v hv w hw key hkey (h ▸ hkey')
    have hsame : names.mergeSort (precedes limit) = others.mergeSort (precedes limit) :=
      mergeSort_eq_of_perm ((List.mergeSort_perm others _).trans hperm.symm)
        (List.pairwise_mergeSort precedes_trans precedes_total others) hkeyOf
    rw [sortNames_eq_ok_iff.2 ⟨hall, hsame⟩, sortNames_eq_ok_iff.2 ⟨hothers, rfl⟩]
    exact agree_refl _
  -- A name without a key is in either list, so neither of them is sorted.
  · have hfault : ∀ listed : List (List Char), names.Perm listed →
        ∃ fault, sortNames limit listed = .error fault := by
      intro listed hlisted
      cases hsort : sortNames limit listed with
      | error fault => exact ⟨fault, rfl⟩
      | ok sorted =>
        have hlistedKeys := (sortNames_eq_ok_iff.1 hsort).1
        exact absurd (fun name hname => hlistedKeys name (hlisted.mem_iff.1 hname)) hall
    rcases hfault names (List.Perm.refl names) with ⟨fault, hnames⟩
    rcases hfault others hperm with ⟨other, hothers⟩
    rw [hnames, hothers]
    exact .faults fault other

/-! ### Numerals as names -/

/-- The key of a decimal numeral is the number. -/
theorem nameKey_toDigits {n : Nat} (h : (Nat.toDigits 10 n).length ≤ limit) :
    nameKey limit (Nat.toDigits 10 n) = .ok (.number n) := by
  rw [nameKey, if_pos (Text.isDigits_toDigits n), nameValue, Text.readNatural_toDigits h]
  rfl

theorem toDigits_injective : Function.Injective (Nat.toDigits 10) := by
  intro m n h
  rw [← Nat.ofDigitChars_ten_toDigits (n := m), h, Nat.ofDigitChars_ten_toDigits]

/-- A smaller number has no longer a numeral. -/
theorem length_toDigits_le {m n : Nat} (h : m ≤ n) :
    (Nat.toDigits 10 m).length ≤ (Nat.toDigits 10 n).length := by
  have hpos : 0 < (Nat.toDigits 10 n).length := Nat.length_toDigits_pos
  rw [Nat.length_toDigits_le_iff (by decide) hpos]
  exact Nat.lt_of_le_of_lt h ((Nat.length_toDigits_le_iff (by decide) hpos).1 (Nat.le_refl _))

theorem nodup_countedNames (count : Nat) : (countedNames count).Nodup :=
  List.Nodup.map toDigits_injective List.nodup_range

theorem mem_countedNames {count : Nat} {name : List Char} :
    name ∈ countedNames count ↔ ∃ n < count, Nat.toDigits 10 n = name := by
  simp [countedNames]

/-- The names of counted states are in order. -/
theorem sortNames_countedNames {count : Nat} (hlimit : (Nat.toDigits 10 count).length ≤ limit)
    (hperm : (countedNames count).Perm names) :
    sortNames limit names = .ok (countedNames count) := by
  have hkey : ∀ n < count, nameKey limit (Nat.toDigits 10 n) = .ok (.number n) :=
    fun n hn => nameKey_toDigits (Nat.le_trans (length_toDigits_le (Nat.le_of_lt hn)) hlimit)
  have hnumeral : ∀ name ∈ names, ∃ n < count, Nat.toDigits 10 n = name :=
    fun name hname => mem_countedNames.1 (hperm.mem_iff.2 hname)
  refine sortNames_eq_ok_iff.2 ⟨fun name hname => ?_, mergeSort_eq_of_perm hperm ?_ ?_⟩
  · rcases hnumeral name hname with ⟨n, hn, rfl⟩
    exact ⟨_, hkey n hn⟩
  · rw [countedNames, List.pairwise_map]
    refine List.pairwise_lt_range.imp_of_mem fun {m n} hm hn hmn => ?_
    rw [List.mem_range] at hm hn
    rw [precedes, keyOf_eq (hkey m hm), keyOf_eq (hkey n hn)]
    exact Nat.isLE_compare.2 (Nat.le_of_lt hmn)
  -- Numerals without leading zeros are told apart by their values.
  · intro v hv w hw h
    rcases hnumeral v hv with ⟨m, hm, rfl⟩
    rcases hnumeral w hw with ⟨n, hn, rfl⟩
    rw [keyOf_eq (hkey m hm), keyOf_eq (hkey n hn), NameKey.number.injEq] at h
    rw [h]

end Description

end FiniteState
