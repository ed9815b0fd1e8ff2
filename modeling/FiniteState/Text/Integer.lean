import FiniteState.Text.Blank
import FiniteState.Text.Digit
import FiniteState.Text.Quoted

/-!
# Integer Literals

An integer literal is an optional sign and decimal digits of any script, with single underscores
allowed between two digits. Blanks around it do not matter.

Literals have a value only up to a number of digits. Leading zeros count, the sign and underscores
do not. The limit is a parameter: every list of texts keeps some limit, so a law for all limits that
the texts keep is a law for all texts. A text that begins with too many digits is reported as such,
whatever stands after them.

## Main definitions

* `maxDigits`: The most digits that the literals of descriptions and commands may have.
* `leadingDigits?`: The digits that a text begins with.
* `IntegerFault`: Why a text has no value.
* `readNatural`, `readInteger`: The values of literals without and with a sign.
* `IntegerFault.message`: The report of a text without a value.

## Theorems

* `readNatural_of_isDigits`: Which texts of digits have a value, and which one.
* `isDigits_toDigits`, `readNatural_toDigits`: The decimal numeral of a number is read as the
  number.
-/

namespace FiniteState

namespace Text

/-- The most digits that the literals of descriptions and commands may have. -/
def maxDigits : Nat := 4300

/-- The most characters of a quoted text that the report of a text without a value shows. -/
def maxQuoted : Nat := 200

/-- Why a text has no integer value. -/
inductive IntegerFault
  /-- The text is no integer literal. -/
  | notLiteral
  /-- There are more digits than the limit. -/
  | tooManyDigits (count limit : Nat)
deriving DecidableEq

/-- The report of a text without a value. A long text is cut off within its quotes. -/
def IntegerFault.message (text : List Char) : IntegerFault → String
  | notLiteral =>
    "invalid literal for int() with base 10: " ++
      String.ofList ((quoted (String.ofList text)).toList.take maxQuoted)
  | tooManyDigits count limit =>
    s!"Exceeds the limit ({limit} digits) for integer string conversion: value has {count} digits"
      ++ "; use sys.set_int_max_str_digits() to increase the limit"

/-- The number that decimal digits stand for, the most significant one first. -/
def ofDigits (digits : List Nat) : Nat :=
  digits.foldl (fun value digit => 10 * value + digit) 0

/-- The digits that a text after a digit begins with, and what stands after them. There are none if
    an underscore is not followed by a digit. -/
def digitsAfter? : List Char → Option (List Nat × List Char)
  | [] => some ([], [])
  | ['_'] => none
  | '_' :: c :: rest => do
    let digit ← decimalValue? c
    let (digits, after) ← digitsAfter? rest
    return (digit :: digits, after)
  | c :: rest =>
    match decimalValue? c with
    | none => some ([], c :: rest)
    | some digit => do
      let (digits, after) ← digitsAfter? rest
      return (digit :: digits, after)

/-- The digits that a text begins with, and what stands after them. There are none if the first
    character is no digit or an underscore is not between two digits. -/
def leadingDigits? : List Char → Option (List Nat × List Char)
  | [] => none
  | c :: rest => do
    let digit ← decimalValue? c
    let (digits, after) ← digitsAfter? rest
    return (digit :: digits, after)

/-- The value of a literal without sign. -/
def readNatural (limit : Nat) (text : List Char) : Except IntegerFault Nat :=
  match leadingDigits? text with
  | none => .error .notLiteral
  | some (digits, after) =>
    if limit < digits.length then .error (.tooManyDigits digits.length limit)
    else if after.isEmpty then .ok (ofDigits digits)
    else .error .notLiteral

/-- The value of an integer literal. -/
def readInteger (limit : Nat) (text : List Char) : Except IntegerFault Int :=
  match trim text with
  | '+' :: digits => (readNatural limit digits).map Int.ofNat
  | '-' :: digits => (readNatural limit digits).map fun value => -(value : Int)
  | digits => (readNatural limit digits).map Int.ofNat

/-! ### Texts of digits -/

/-- Digits are read as far as they are decimal. -/
theorem digitsAfter?_of_isDigits {text : List Char} (h : ∀ c ∈ text, isDigit c = true) :
    digitsAfter? text =
      some ((text.takeWhile isDecimal).map digitValue, text.dropWhile isDecimal) := by
  induction text with
  | nil => rfl
  | cons c text ih =>
    have hne : c ≠ '_' := by
      rintro rfl
      exact absurd (h _ List.mem_cons_self) (by decide)
    have hrest := ih fun d hd => h d (List.mem_cons_of_mem c hd)
    unfold digitsAfter?
    split
    next heq => exact absurd heq (List.cons_ne_nil c text)
    next heq => exact absurd (List.cons.inj heq).1 hne
    next heq => exact absurd (List.cons.inj heq).1 hne
    next heq =>
      obtain ⟨rfl, rfl⟩ := List.cons.inj heq
      cases hvalue : decimalValue? c with
      | none => simp [isDecimal, hvalue]
      | some digit => simp [isDecimal, digitValue, hvalue, hrest]

theorem isEmpty_dropWhile (text : List Char) :
    (text.dropWhile isDecimal).isEmpty = text.all isDecimal := by
  induction text with
  | nil => rfl
  | cons c text ih => cases hc : isDecimal c <;> simp [hc, ih]

/-- A text of digits has a value if all of them are decimal, unless there are too many of these to
    begin with. -/
theorem readNatural_of_isDigits {limit : Nat} {text : List Char} (h : isDigits text = true) :
    readNatural limit text =
      if limit < (text.takeWhile isDecimal).length then
        .error (.tooManyDigits (text.takeWhile isDecimal).length limit)
      else if text.all isDecimal = true then .ok (ofDigits (text.map digitValue))
      else .error .notLiteral := by
  cases text with
  | nil => exact absurd h (by decide)
  | cons c text =>
    have hdigits : ∀ d ∈ c :: text, isDigit d = true := by simpa [isDigits] using h
    have hrest := digitsAfter?_of_isDigits fun d hd => hdigits d (List.mem_cons_of_mem c hd)
    cases hvalue : decimalValue? c with
    | none => simp [readNatural, leadingDigits?, isDecimal, hvalue]
    | some digit =>
      have hleading : leadingDigits? (c :: text) = some
          (((c :: text).takeWhile isDecimal).map digitValue, (c :: text).dropWhile isDecimal) := by
        simp [leadingDigits?, hrest, hvalue, isDecimal, digitValue]
      rw [readNatural, hleading]
      simp only [List.length_map, isEmpty_dropWhile]
      by_cases hall : (c :: text).all isDecimal = true
      · -- Nothing is left behind the decimal digits, so they are the whole text.
        have hafter := List.isEmpty_iff.1 ((isEmpty_dropWhile _).trans hall)
        have htake := List.takeWhile_append_dropWhile (p := isDecimal) (l := c :: text)
        rw [hafter, List.append_nil] at htake
        rw [htake]
      · rw [if_neg hall, if_neg hall]

/-! ### Decimal numerals -/

theorem isDigit_of_isDigit {c : Char} (h : c.isDigit = true) : isDigit c = true := by
  have hrange : 48 ≤ c.toNat ∧ c.toNat ≤ 57 := by
    simpa [Char.isDigit, UInt32.le_iff_toNat_le] using h
  exact inRanges_eq_true_iff.2 ⟨(0x30, 0x39), List.mem_cons_self, hrange⟩

theorem decimalValue?_of_isDigit {c : Char} (h : c.isDigit = true) :
    decimalValue? c = some (c.toNat - '0'.toNat) := by
  have hrange : 48 ≤ c.toNat ∧ c.toNat ≤ 57 := by
    simpa [Char.isDigit, UInt32.le_iff_toNat_le] using h
  have hfirst : zeros = 0x30 :: zeros.tail := rfl
  have hfind : (0x30 :: zeros.tail).find? (fun start => start ≤ c.toNat && c.toNat < start + 10) =
      some 0x30 := by
    refine List.find?_cons_of_pos ?_
    simp only [Bool.and_eq_true, decide_eq_true_eq]
    omega
  rw [decimalValue?, hfirst, hfind]
  rfl

theorem isDecimal_of_isDigit {c : Char} (h : c.isDigit = true) : isDecimal c = true := by
  rw [isDecimal, decimalValue?_of_isDigit h, Option.isSome_some]

theorem digitValue_of_isDigit {c : Char} (h : c.isDigit = true) :
    digitValue c = c.toNat - '0'.toNat := by
  rw [digitValue, decimalValue?_of_isDigit h, Option.getD_some]

theorem ofDigits_map (text : List Char) :
    ofDigits (text.map fun c => c.toNat - '0'.toNat) = Nat.ofDigitChars 10 text 0 := by
  rw [ofDigits, List.foldl_map, Nat.ofDigitChars]

/-- The decimal numeral of a number consists of digits. -/
theorem isDigits_toDigits (n : Nat) : isDigits (Nat.toDigits 10 n) = true := by
  have hdigits : (Nat.toDigits 10 n).all isDigit = true :=
    List.all_eq_true.2 fun c hc =>
      isDigit_of_isDigit (Nat.isDigit_of_mem_toDigits (by decide) (by decide) hc)
  simp [isDigits, hdigits]

/-- The decimal numeral of a number is read as the number. -/
theorem readNatural_toDigits {limit n : Nat} (h : (Nat.toDigits 10 n).length ≤ limit) :
    readNatural limit (Nat.toDigits 10 n) = .ok n := by
  have hdigits : ∀ c ∈ Nat.toDigits 10 n, c.isDigit = true :=
    fun c hc => Nat.isDigit_of_mem_toDigits (by decide) (by decide) hc
  have hdecimal : (Nat.toDigits 10 n).all isDecimal = true :=
    List.all_eq_true.2 fun c hc => isDecimal_of_isDigit (hdigits c hc)
  have hvalues : (Nat.toDigits 10 n).map digitValue =
      (Nat.toDigits 10 n).map fun c => c.toNat - '0'.toNat :=
    List.map_congr_left fun c hc => digitValue_of_isDigit (hdigits c hc)
  have hlimit : ¬ limit < ((Nat.toDigits 10 n).takeWhile isDecimal).length := by
    have hle := (List.takeWhile_sublist isDecimal (l := Nat.toDigits 10 n)).length_le
    omega
  rw [readNatural_of_isDigits (isDigits_toDigits n), if_neg hlimit, if_pos hdecimal, hvalues,
    ofDigits_map, Nat.ofDigitChars_ten_toDigits]

end Text

end FiniteState
