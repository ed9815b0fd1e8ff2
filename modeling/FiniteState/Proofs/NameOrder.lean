import FiniteState.Proofs.StateNames
import Mathlib.Data.Nat.Digits.Defs

/-!
# The Arrangement of State Names

What sorting makes of a list of names, said without keys: names of digits come first by the numbers
that they stand for, in whatever script and with whatever zeros in front, and all others follow by
their code points.

This does not say everything, since different names of digits may stand for the same number. Such
names are left as they were given. It is all that is open, for other names that are not told apart
are the same, and so a list of names has one arrangement only (`Description.arranges_iff`). That is
why an arrangement can be the result of sorting, and not just one of its properties.

Some characters are digits without being decimal, such as superscripts. A name of digits with one
of these in it is neither a number nor a word, and the first such name is reported in place of a
result.

How many digits a number may have is no matter of the order. The limit is arbitrary here, and no
name is longer.

## Main definitions

* `Description.numericValue`: The number that a name stands for.
* `Description.Undecimal`: A name of digits that stands for no number.
* `Description.Alike`: Names between which there is no order.
* `Description.Arranges`: A list is the arrangement of another.

## Theorems

* `filter_mergeSort`: Sorting is stable.
* `eq_of_filter_eq`: An order and the order of what it leaves open determine a list.
* `compare_eq_lt_iff_lex`: Texts are in the order of their code points.
* `Description.plainKey_eq_iff`: Names are alike if they have the same key.
* `Description.nameKey_eq`: The key of a name, or that it is undecimal.
* `Description.arranges_iff`: Sorting gives the one arrangement.
* `Description.sortNames_arranges`: What becomes of any list of names.
-/

namespace FiniteState

/-! ### Stable sorting -/

section Stability

variable {α : Type} {le : α → α → Bool} {items others : List α}

/-- Sorting keeps the order of members none of which has to come before another. -/
theorem filter_mergeSort {p : α → Bool}
    (htrans : ∀ a b c, le a b = true → le b c = true → le a c = true)
    (htotal : ∀ a b, (le a b || le b a) = true)
    (hp : ∀ a ∈ items, ∀ b ∈ items, p a = true → p b = true → le a b = true) :
    (items.mergeSort le).filter p = items.filter p := by
  have hpairwise : (items.filter p).Pairwise fun a b => le a b = true := by
    refine List.pairwise_of_forall_mem_list fun a ha b hb => ?_
    rw [List.mem_filter] at ha hb
    exact hp a ha.1 b hb.1 ha.2 hb.2
  -- They are a sublist of the result in their order, and the result has no more of them.
  have hkept := (List.sublist_mergeSort htrans htotal hpairwise List.filter_sublist).filter p
  simp only [List.filter_filter, Bool.and_self] at hkept
  exact (hkept.eq_of_length ((List.mergeSort_perm items le).filter p).length_eq.symm).symm

/-- Of all lists with certain members in order, only one has those that are alike in a given
    order. -/
theorem eq_of_filter_eq (alike : α → α → Bool) (hself : ∀ a, alike a a = true)
    (halike : ∀ a ∈ items, ∀ b ∈ items, le a b = true → le b a = true → alike a b = true)
    (hperm : items.Perm others) (hitems : items.Pairwise fun a b => le a b = true)
    (hothers : others.Pairwise fun a b => le a b = true)
    (hfilter : ∀ a, items.filter (alike a) = others.filter (alike a)) : items = others := by
  induction items generalizing others with
  | nil => exact hperm.nil_eq
  | cons x items ih =>
    cases others with
    | nil => exact hperm.eq_nil
    | cons y others =>
      obtain rfl : x = y := by
        have hx : x ∈ y :: others := hperm.mem_iff.1 List.mem_cons_self
        have hy : y ∈ x :: items := hperm.mem_iff.2 List.mem_cons_self
        rcases List.mem_cons.1 hx with rfl | hx'
        · rfl
        · rcases List.mem_cons.1 hy with rfl | hy'
          · rfl
          · -- Either of them is first, so they are alike, and the first of those is the same.
            have hxy := halike x List.mem_cons_self y hy (List.rel_of_pairwise_cons hitems hy')
              (List.rel_of_pairwise_cons hothers hx')
            have hfirst := hfilter x
            rw [List.filter_cons_of_pos (hself x), List.filter_cons_of_pos hxy] at hfirst
            exact (List.cons.inj hfirst).1
      refine congrArg (x :: ·) (ih (fun a ha b hb => ?_) hperm.cons_inv hitems.of_cons
        hothers.of_cons fun a => ?_)
      · exact halike a (List.mem_cons_of_mem x ha) b (List.mem_cons_of_mem x hb)
      -- The first members are the same, so taking them away on both sides keeps the rest equal.
      · have hrest := hfilter a
        by_cases hx : alike a x = true
        · rw [List.filter_cons_of_pos hx, List.filter_cons_of_pos hx] at hrest
          exact (List.cons.inj hrest).2
        · rwa [List.filter_cons_of_neg hx, List.filter_cons_of_neg hx] at hrest

end Stability

/-! ### Numbers and code points -/

/-- Texts are compared as lists of code points. -/
theorem compare_eq_lt_iff_lex {v w : List Char} :
    compare v w = .lt ↔ List.Lex (fun c d => c.toNat < d.toNat) v w := by
  induction v generalizing w with
  | nil =>
    cases w with
    | nil => exact iff_of_false (by decide) List.not_lex_nil
    | cons d w => exact iff_of_true rfl .nil
  | cons c v ih =>
    cases w with
    | nil => exact iff_of_false (show Ordering.gt ≠ .lt by decide) List.not_lex_nil
    | cons d w =>
      have hcons : compare (c :: v) (d :: w) = (compare c d).then (compare v w) :=
        List.compareLex_cons_cons
      -- The first characters decide, and the induction hypothesis does where they are the same.
      rw [hcons, Ordering.then_eq_lt, ih, List.cons_lex_cons_iff,
        Std.LawfulEqCmp.compare_eq_iff_eq]
      exact or_congr_left (compareOfLessAndEq_eq_lt.trans UInt32.lt_iff_toNat_lt)

/-- Digits count by their places, the last of them once. -/
theorem Text.ofDigits_eq (digits : List Nat) :
    ofDigits digits = Nat.ofDigits 10 digits.reverse := by
  rw [Nat.ofDigits_eq_foldr, List.foldr_reverse, ofDigits]
  simp [Nat.add_comm]

namespace Description

/-- The number that a name of decimal digits of any script stands for. -/
def numericValue (name : List Char) : Nat :=
  Nat.ofDigits 10 (name.map Text.digitValue).reverse

/-- A name consists of digits, and not all of them are decimal. -/
def Undecimal (name : List Char) : Prop :=
  Text.isDigits name = true ∧ name.all Text.isDecimal = false

instance (name : List Char) : Decidable (Undecimal name) :=
  inferInstanceAs (Decidable (_ ∧ _))

/-- Names are the same, or both are names of digits with the same value. -/
def Alike (v w : List Char) : Prop :=
  v = w ∨ (Text.isDigits v = true ∧ Text.isDigits w = true ∧ numericValue v = numericValue w)

instance (v w : List Char) : Decidable (Alike v w) :=
  inferInstanceAs (Decidable (_ ∨ _))

/-- Names are a rearrangement of other names: those of digits come first, in the order of their
    values, and the others after them, in the order of their code points. Names that are alike
    are in the order given. -/
structure Arranges (names sorted : List (List Char)) : Prop where
  perm : sorted.Perm names
  divided : ∃ numerals words, sorted = numerals ++ words ∧
    (∀ name ∈ numerals, Text.isDigits name = true) ∧
    numerals.Pairwise (fun v w => numericValue v ≤ numericValue w) ∧
    (∀ name ∈ words, Text.isDigits name = false) ∧
    words.Pairwise (fun v w => v = w ∨ List.Lex (fun c d => c.toNat < d.toNat) v w)
  stable : ∀ name, (sorted.filter fun v => Alike name v) = names.filter fun v => Alike name v

/-- The key that a name has if all digits have values. -/
def plainKey (name : List Char) : NameKey :=
  if Text.isDigits name then .number (numericValue name) else .word name

/-- A name does not come after another by their plain keys. -/
def inOrder (v w : List Char) : Bool :=
  ((plainKey v).compare (plainKey w)).isLE

variable {limit : Nat} {names sorted : List (List Char)} {v w : List Char}

theorem plainKey_of_digits (h : Text.isDigits v = true) :
    plainKey v = .number (numericValue v) := by
  rw [plainKey, if_pos h]

theorem plainKey_of_word (h : Text.isDigits v = false) : plainKey v = .word v := by
  rw [plainKey, if_neg (Bool.eq_false_iff.1 h)]

/-- Names have the same key if they are alike. -/
theorem plainKey_eq_iff : plainKey v = plainKey w ↔ Alike v w := by
  cases hv : Text.isDigits v <;> cases hw : Text.isDigits w <;>
    grind [plainKey_of_digits, plainKey_of_word, Alike]

theorem inOrder_numbers (hv : Text.isDigits v = true) (hw : Text.isDigits w = true) :
    inOrder v w = true ↔ numericValue v ≤ numericValue w := by
  rw [inOrder, plainKey_of_digits hv, plainKey_of_digits hw]
  exact Nat.isLE_compare

theorem inOrder_words (hv : Text.isDigits v = false) (hw : Text.isDigits w = false) :
    inOrder v w = true ↔ v = w ∨ List.Lex (fun c d => c.toNat < d.toNat) v w := by
  have hcompare : (NameKey.word v).compare (.word w) = compare v w := rfl
  have heq : compare v w = .eq ↔ v = w := Std.LawfulEqCmp.compare_eq_iff_eq
  rw [inOrder, plainKey_of_word hv, plainKey_of_word hw, hcompare, ← compare_eq_lt_iff_lex, ← heq]
  cases compare v w <;> decide

/-- A number is before every word. -/
theorem inOrder_of_digits (hv : Text.isDigits v = true) (hw : Text.isDigits w = false) :
    inOrder v w = true ∧ inOrder w v = false := by
  rw [inOrder, inOrder, plainKey_of_digits hv, plainKey_of_word hw]
  exact ⟨rfl, rfl⟩

/-- Names in order are numbers in order and then words in order. -/
theorem pairwise_inOrder_iff : sorted.Pairwise (fun v w => inOrder v w = true) ↔
    ∃ numerals words, sorted = numerals ++ words ∧
      (∀ name ∈ numerals, Text.isDigits name = true) ∧
      numerals.Pairwise (fun v w => numericValue v ≤ numericValue w) ∧
      (∀ name ∈ words, Text.isDigits name = false) ∧
      words.Pairwise (fun v w => v = w ∨ List.Lex (fun c d => c.toNat < d.toNat) v w) := by
  constructor
  · intro h
    rw [← List.takeWhile_append_dropWhile (p := Text.isDigits) (l := sorted),
      List.pairwise_append] at h
    rcases h with ⟨hnumerals, hwords, -⟩
    have hdigits : ∀ name ∈ sorted.takeWhile Text.isDigits, Text.isDigits name = true :=
      List.all_eq_true.1 List.all_takeWhile
    -- The first of the others is a word, and no number comes after a word.
    have hothers : ∀ name ∈ sorted.dropWhile Text.isDigits, Text.isDigits name = false := by
      cases hrest : sorted.dropWhile Text.isDigits with
      | nil => exact fun name hname => absurd hname List.not_mem_nil
      | cons first rest =>
        have hfirst : Text.isDigits first = false := by
          have hhead := List.head_dropWhile_not Text.isDigits (l := sorted) (by simp [hrest])
          simpa only [hrest, List.head_cons] using hhead
        refine List.forall_mem_cons.2 ⟨hfirst, fun name hname => ?_⟩
        rw [hrest] at hwords
        by_contra hname'
        have hafter := List.rel_of_pairwise_cons hwords hname
        rw [(inOrder_of_digits (Bool.not_eq_false _ ▸ hname') hfirst).2] at hafter
        exact nomatch hafter
    refine ⟨_, _, List.takeWhile_append_dropWhile.symm, hdigits, ?_, hothers, ?_⟩
    · exact hnumerals.imp_of_mem fun hv hw => (inOrder_numbers (hdigits _ hv) (hdigits _ hw)).1
    · exact hwords.imp_of_mem fun hv hw => (inOrder_words (hothers _ hv) (hothers _ hw)).1
  · intro h
    rcases h with ⟨numerals, words, rfl, hdigits, hnumerals, hothers, hwords⟩
    refine List.pairwise_append.2 ⟨?_, ?_, fun v hv w hw => ?_⟩
    · exact hnumerals.imp_of_mem fun hv hw => (inOrder_numbers (hdigits _ hv) (hdigits _ hw)).2
    · exact hwords.imp_of_mem fun hv hw => (inOrder_words (hothers _ hv) (hothers _ hw)).2
    · exact (inOrder_of_digits (hdigits v hv) (hothers w hw)).1

/-- A name that is not too long has its plain key, unless it is undecimal. -/
theorem nameKey_eq (hlimit : Text.isDigits v = true → v.length ≤ limit) :
    nameKey limit v =
      if Undecimal v then .error (.integer v .notLiteral) else .ok (plainKey v) := by
  by_cases hdigits : Text.isDigits v = true
  -- The limit counts the decimal digits in front, and there are no more of them than characters.
  · have hlength : ¬ limit < (v.takeWhile Text.isDecimal).length := by
      have hle := (List.takeWhile_sublist Text.isDecimal (l := v)).length_le
      have hlimit := hlimit hdigits
      omega
    rw [nameKey, if_pos hdigits, nameValue, Text.readNatural_of_isDigits hdigits, if_neg hlength]
    by_cases hall : v.all Text.isDecimal = true
    · have hdecimal : ¬ Undecimal v := fun h => Bool.eq_false_iff.1 h.2 hall
      rw [if_pos hall, if_neg hdecimal, plainKey, if_pos hdigits, Text.ofDigits_eq]
      rfl
    · have hundecimal : Undecimal v := ⟨hdigits, Bool.eq_false_iff.2 hall⟩
      rw [if_neg hall, if_pos hundecimal]
      rfl
  · have hdecimal : ¬ Undecimal v := fun h => hdigits h.1
    rw [nameKey, if_neg hdigits, if_neg hdecimal, plainKey, if_neg hdigits]

theorem nameKey_eq_ok_iff (hlimit : Text.isDigits v = true → v.length ≤ limit) {key : NameKey} :
    nameKey limit v = .ok key ↔ ¬ Undecimal v ∧ key = plainKey v := by
  rw [nameKey_eq hlimit]
  split
  next h => simp [h]
  next h => simp [h, eq_comm]

/-! ### Sorting -/

/-- The first undecimal name is reported. -/
theorem sortNames_eq_error {name : List Char}
    (hlimit : ∀ v ∈ names, Text.isDigits v = true → v.length ≤ limit)
    (h : names.find? (fun v => Undecimal v) = some name) :
    sortNames limit names = .error (.integer name .notLiteral) := by
  rw [List.find?_eq_some_iff_append] at h
  rcases h with ⟨hname, before, after, rfl, hbefore⟩
  rw [decide_eq_true_eq] at hname
  -- Keys are made in the order of the names, and the names before the first undecimal one have
  -- keys.
  have hkeyed : ((before ++ name :: after).mapM fun v => do return (← nameKey limit v, v)) =
      (.error (.integer name .notLiteral) : Except Fault (List (NameKey × List Char))) := by
    refine mapM_eq_error (fun v hv => ?_) ?_
    · have hdecimal : ¬ Undecimal v := by simpa using hbefore v hv
      exact ⟨(plainKey v, v), by
        rw [nameKey_eq (hlimit v (List.mem_append_left _ hv)), if_neg hdecimal]; rfl⟩
    · rw [nameKey_eq (hlimit name (by simp)), if_pos hname]
      rfl
  rw [sortNames, hkeyed]
  rfl

theorem alike_self (v : List Char) : Alike v v :=
  Or.inl rfl

/-- Sorting names with plain keys arranges them, and there is no other way to arrange them. -/
theorem arranges_iff (hkey : ∀ v ∈ names, nameKey limit v = .ok (plainKey v)) :
    Arranges names sorted ↔ names.mergeSort (precedes limit) = sorted := by
  have hprecedes : ∀ v ∈ names, ∀ w ∈ names, precedes limit v w = inOrder v w := by
    intro v hv w hw
    rw [precedes, keyOf_eq (hkey v hv), keyOf_eq (hkey w hw), inOrder]
  have hperm := List.mergeSort_perm names (precedes limit)
  have hpairwise : (names.mergeSort (precedes limit)).Pairwise fun v w => inOrder v w = true :=
    (List.pairwise_mergeSort precedes_trans precedes_total names).imp_of_mem fun hv hw h =>
      hprecedes _ (hperm.mem_iff.1 hv) _ (hperm.mem_iff.1 hw) ▸ h
  have hstable : ∀ name, ((names.mergeSort (precedes limit)).filter fun v => Alike name v) =
      names.filter fun v => Alike name v := by
    refine fun name => filter_mergeSort precedes_trans precedes_total fun v hv w hw hv' hw' => ?_
    have hsame : plainKey v = plainKey w :=
      (plainKey_eq_iff.2 (of_decide_eq_true hv')).symm.trans
        (plainKey_eq_iff.2 (of_decide_eq_true hw'))
    have hself : (plainKey w).compare (plainKey w) = .eq := Std.ReflCmp.compare_self
    rw [hprecedes v hv w hw, inOrder, hsame, hself]
    rfl
  constructor
  · intro h
    -- Names neither of which comes before the other have the same key.
    have halike : ∀ v ∈ sorted, ∀ w ∈ sorted, inOrder v w = true → inOrder w v = true →
        decide (Alike v w) = true := by
      intro v _ w _ hvw hwv
      have hsame := Std.LawfulEqCmp.eq_of_compare (Std.OrientedCmp.isLE_antisymm hvw hwv)
      exact decide_eq_true (plainKey_eq_iff.1 hsame)
    have hsame := eq_of_filter_eq (fun v w => decide (Alike v w))
      (fun v => decide_eq_true (alike_self v)) halike (h.perm.trans hperm.symm)
      (pairwise_inOrder_iff.2 h.divided) hpairwise fun name =>
        (h.stable name).trans (hstable name).symm
    exact hsame.symm
  · rintro rfl
    exact ⟨hperm, pairwise_inOrder_iff.1 hpairwise, hstable⟩

/-- Names of which none is undecimal are arranged in the one possible way. -/
theorem sortNames_eq_ok_iff_arranges
    (hlimit : ∀ v ∈ names, Text.isDigits v = true → v.length ≤ limit)
    (h : ∀ v ∈ names, ¬ Undecimal v) :
    sortNames limit names = .ok sorted ↔ Arranges names sorted := by
  have hkey : ∀ v ∈ names, nameKey limit v = .ok (plainKey v) := by
    intro v hv
    rw [nameKey_eq (hlimit v hv), if_neg (h v hv)]
  rw [arranges_iff hkey, sortNames_eq_ok_iff]
  exact and_iff_right fun v hv => ⟨_, hkey v hv⟩

/-- Names are not sorted if one of them is undecimal. -/
theorem sortNames_eq_error_iff
    (hlimit : ∀ v ∈ names, Text.isDigits v = true → v.length ≤ limit) {fault : Fault} :
    sortNames limit names = .error fault ↔ ∃ name,
      names.find? (fun v => Undecimal v) = some name ∧ fault = .integer name .notLiteral := by
  cases hfind : names.find? fun v => Undecimal v with
  | some name =>
    rw [sortNames_eq_error hlimit hfind]
    simp [eq_comm]
  | none =>
    have hdecimal : ∀ v ∈ names, ¬ Undecimal v := by simpa using hfind
    have hkey : ∀ v ∈ names, ∃ key, nameKey limit v = .ok key := by
      intro v hv
      exact ⟨plainKey v, by rw [nameKey_eq (hlimit v hv), if_neg (hdecimal v hv)]⟩
    rw [sortNames_eq_ok_iff.2 ⟨hkey, rfl⟩]
    simp

/-- Sorting fails if a name is undecimal, and reports the first such name. Any other list of names
    comes out as its arrangement. Keys tell all names apart but those of the same number. -/
theorem sortNames_arranges
    (hlimit : ∀ name ∈ names, Text.isDigits name = true → name.length ≤ limit) :
    ((∃ fault, sortNames limit names = .error fault) ↔ ∃ name ∈ names, Undecimal name) ∧
    (∀ fault, sortNames limit names = .error fault → ∃ name,
      names.find? (fun v => Undecimal v) = some name ∧ fault = .integer name .notLiteral) ∧
    (∀ sorted, sortNames limit names = .ok sorted ↔
      (∀ name ∈ names, ¬ Undecimal name) ∧ Arranges names sorted) ∧
    ∀ v ∈ names, ∀ w ∈ names, ∀ key key', nameKey limit v = .ok key → nameKey limit w = .ok key' →
      (key.compare key' = .eq ↔ Alike v w) := by
  have hfault : (∃ fault, sortNames limit names = .error fault) ↔
      ∃ name ∈ names, Undecimal name := by
    have hfind : (names.find? fun v => Undecimal v).isSome = true ↔
        ∃ v ∈ names, decide (Undecimal v) = true := List.find?_isSome
    simp only [Option.isSome_iff_exists, decide_eq_true_eq] at hfind
    simp only [sortNames_eq_error_iff hlimit, ← hfind]
    rw [exists_comm]
    simp
  refine ⟨hfault, fun fault => (sortNames_eq_error_iff hlimit).1, fun sorted => ?_, ?_⟩
  · constructor
    · intro h
      have hdecimal : ∀ name ∈ names, ¬ Undecimal name := by
        intro name hname hbad
        -- What has been sorted has not failed.
        rcases hfault.2 ⟨name, hname, hbad⟩ with ⟨fault, herror⟩
        rw [h] at herror
        exact nomatch herror
      exact ⟨hdecimal, (sortNames_eq_ok_iff_arranges hlimit hdecimal).1 h⟩
    · intro h
      exact (sortNames_eq_ok_iff_arranges hlimit h.1).2 h.2
  · intro v hv w hw key key' hkey hkey'
    rw [nameKey_eq_ok_iff (hlimit v hv)] at hkey
    rw [nameKey_eq_ok_iff (hlimit w hw)] at hkey'
    rw [Std.LawfulEqCmp.compare_eq_iff_eq, hkey.2, hkey'.2, plainKey_eq_iff]

/-- Names with digits of two scripts, with leading zeros, without characters, and with a digit that
    is not decimal behind a letter. -/
def mixedNames : List (List Char) :=
  ["10", "q2", "٣", "007", "", "7", "x²", "Q", "3"].map String.toList

/-- The same names with their keys. -/
def mixedKeyed : List (NameKey × List Char) :=
  [(.number 10, ['1', '0']), (.word ['q', '2'], ['q', '2']), (.number 3, ['٣']),
    (.number 7, ['0', '0', '7']), (.word [], []), (.number 7, ['7']),
    (.word ['x', '²'], ['x', '²']), (.word ['Q'], ['Q']), (.number 3, ['3'])]

theorem sortNames_arranges_mixedNames :
    (∀ name ∈ mixedNames, Text.isDigits name = true → name.length ≤ Text.maxDigits) ∧
    (∃ sorted, sortNames Text.maxDigits mixedNames = .ok sorted ∧ Arranges mixedNames sorted ∧
      sorted = ["٣", "3", "007", "7", "10", "", "Q", "q2", "x²"].map String.toList) ∧
    (∀ name ∈ mixedNames ++ ["1²".toList, "²".toList],
      Text.isDigits name = true → name.length ≤ Text.maxDigits) ∧
    sortNames Text.maxDigits (mixedNames ++ ["1²".toList, "²".toList]) =
      .error (.integer "1²".toList .notLiteral) := by
  have hlimit : ∀ name ∈ mixedNames, Text.isDigits name = true → name.length ≤ Text.maxDigits := by
    decide +kernel
  have hlimit' : ∀ name ∈ mixedNames ++ ["1²".toList, "²".toList],
      Text.isDigits name = true → name.length ≤ Text.maxDigits := by
    decide +kernel
  have hkeyed : (mixedNames.mapM fun name => do return (← nameKey Text.maxDigits name, name)) =
      (.ok mixedKeyed : Except Fault (List (NameKey × List Char))) := by
    decide +kernel
  have hordered : mixedKeyed.mergeSort (fun a b => (a.1.compare b.1).isLE) =
      [(.number 3, ['٣']), (.number 3, ['3']), (.number 7, ['0', '0', '7']), (.number 7, ['7']),
        (.number 10, ['1', '0']), (.word [], []), (.word ['Q'], ['Q']),
        (.word ['q', '2'], ['q', '2']), (.word ['x', '²'], ['x', '²'])] := by
    -- The recursion of sorting is opened first, so that lists are only merged.
    simp only [mixedKeyed, List.mergeSort, List.MergeSort.Internal.splitInTwo, List.length_cons,
      List.length_nil, Nat.reduceAdd, Nat.reduceDiv, List.splitAt_eq, List.take_succ_cons,
      List.take_zero, List.drop_succ_cons, List.drop_zero, List.mergeSort_singleton]
    cbv
  have hsort : sortNames Text.maxDigits mixedNames =
      .ok (["٣", "3", "007", "7", "10", "", "Q", "q2", "x²"].map String.toList) := by
    rw [sortNames, hkeyed]
    exact congrArg (fun ordered => Except.ok (ordered.map Prod.snd)) hordered
  have hfault : ∃ fault, sortNames Text.maxDigits (mixedNames ++ ["1²".toList, "²".toList]) =
      .error fault :=
    (sortNames_arranges hlimit').1.2 ⟨"1²".toList, by decide +kernel, by decide +kernel⟩
  refine ⟨hlimit, ⟨_, hsort, (((sortNames_arranges hlimit).2.2.1 _).1 hsort).2, rfl⟩, hlimit', ?_⟩
  rcases hfault with ⟨fault, hfault⟩
  rcases (sortNames_arranges hlimit').2.1 fault hfault with ⟨name, hfirst, rfl⟩
  have hfound : (mixedNames ++ ["1²".toList, "²".toList]).find? (fun v => Undecimal v) =
      some "1²".toList := by decide +kernel
  rw [hfault, Option.some.inj (hfirst.symm.trans hfound)]

end Description

end FiniteState
