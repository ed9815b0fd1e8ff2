/-!
# Blanks and Words

Whitespace of every script, and the cutting of text at it. A word is a longest run of characters
that are not blank.

## Main definitions

* `isBlank`: Whether a character is whitespace.
* `trim`: Text without the blanks at its two ends.
* `cutWords`: A number of words cut off the front of a text, and what follows them.
* `words`: All words of a text.
* `Spaced`: A text in which words stand, with blanks around them.

## Theorems

* `trim_eq_nil_iff`: Nothing is left of a text without its blanks exactly if all of it is blank.
* `head?_words`: The first word of a text.
* `words_eq_nil_iff`: A text has a word unless all of it is blank.
* `head?_words_trim`: It is the same without the blanks at the two ends.
* `exists_trim`: What is cut off the ends of a text is blank.
* `trim_blanks_append`, `trim_append_blanks`: Blanks at the ends do not matter.
* `spaced_iff`, `Spaced.trim_eq`: The words that stand in a text.
* `mem_of_mem_words`: The words hold characters of the text only.
-/

namespace FiniteState

namespace Text

/-- Whether a character is whitespace: tabs and line ends, the four information separators, and the
    spaces of every width. -/
def isBlank (c : Char) : Bool :=
  let code := c.toNat
  (0x9 ≤ code && code ≤ 0xd) || (0x1c ≤ code && code ≤ 0x20) || code == 0x85 || code == 0xa0 ||
    code == 0x1680 || (0x2000 ≤ code && code ≤ 0x200a) || code == 0x2028 || code == 0x2029 ||
    code == 0x202f || code == 0x205f || code == 0x3000

/-- Text without the blanks it begins with. -/
def trimStart (text : List Char) : List Char :=
  text.dropWhile isBlank

/-- Text without the blanks it ends with. -/
def trimEnd (text : List Char) : List Char :=
  (text.reverse.dropWhile isBlank).reverse

/-- Text without the blanks at its two ends. -/
def trim (text : List Char) : List Char :=
  trimEnd (trimStart text)

/-- The first `count` words of a text, followed by all that stands after them from the next word
    on. The last piece keeps its blanks at the end, and there is none if no word is left. -/
def cutWords : Nat → List Char → List (List Char)
  | 0, text =>
    match trimStart text with
    | [] => []
    | rest => [rest]
  | count + 1, text =>
    match trimStart text with
    | [] => []
    | rest => rest.takeWhile (!isBlank ·) :: cutWords count (rest.dropWhile (!isBlank ·))

/-- The words of a text. There are no more of them than characters. -/
def words (text : List Char) : List (List Char) :=
  cutWords text.length text

/-! ### Blank texts and first words -/

variable {text : List Char}

theorem trimStart_eq_nil_iff : trimStart text = [] ↔ ∀ c ∈ text, isBlank c = true := by
  unfold trimStart
  induction text with
  | nil => simp
  | cons c text ih =>
    cases hc : isBlank c with
    | true => simp [hc, ih]
    | false => simp [hc]

theorem trimStart_of_not_isBlank {c : Char} (hc : isBlank c = false) :
    trimStart (c :: text) = c :: text :=
  List.dropWhile_cons_of_neg (by simp [hc])

/-- What is left without the blanks at the beginning begins with a character that is not blank. -/
theorem trimStart_cases (text : List Char) :
    trimStart text = [] ∨ ∃ c rest, trimStart text = c :: rest ∧ isBlank c = false := by
  unfold trimStart
  induction text with
  | nil => exact Or.inl rfl
  | cons c text ih =>
    cases hc : isBlank c with
    | true => simpa [hc] using ih
    | false => exact Or.inr ⟨c, text, by simp [hc], hc⟩

/-- Only blanks are cut off the end. -/
theorem exists_trimEnd_append (text : List Char) :
    ∃ blanks, (∀ c ∈ blanks, isBlank c = true) ∧ trimEnd text ++ blanks = text := by
  refine ⟨(text.reverse.takeWhile isBlank).reverse, fun c hc => ?_, ?_⟩
  · exact List.all_eq_true.1 List.all_takeWhile c (List.mem_reverse.1 hc)
  · rw [trimEnd, ← List.reverse_append, List.takeWhile_append_dropWhile, List.reverse_reverse]

/-- Blanks at the end are no part of the first word. -/
theorem takeWhile_append_blanks {blanks : List Char} (h : ∀ c ∈ blanks, isBlank c = true) :
    (text ++ blanks).takeWhile (!isBlank ·) = text.takeWhile (!isBlank ·) := by
  induction text with
  | nil =>
    cases blanks with
    | nil => rfl
    | cons c blanks => simp [h c List.mem_cons_self]
  | cons c text ih => rw [List.cons_append, List.takeWhile_cons, List.takeWhile_cons, ih]

/-- A text without the blanks at its ends begins with a character that is not blank, if there is
    anything left. -/
theorem trimStart_trim (text : List Char) : trimStart (trim text) = trim text := by
  unfold trim
  rcases trimStart_cases text with hnil | ⟨c, rest, hcons, hc⟩
  · rw [hnil]
    rfl
  · rw [hcons]
    rcases exists_trimEnd_append (c :: rest) with ⟨blanks, hblanks, happend⟩
    cases htrim : trimEnd (c :: rest) with
    | nil => rfl
    | cons d front =>
      rw [htrim, List.cons_append, List.cons.injEq] at happend
      rw [happend.1, trimStart_of_not_isBlank hc]

theorem trim_eq_nil_iff : trim text = [] ↔ ∀ c ∈ text, isBlank c = true := by
  rw [← trimStart_eq_nil_iff, trim]
  rcases exists_trimEnd_append (trimStart text) with ⟨blanks, hblanks, happend⟩
  constructor
  · intro h
    rw [h, List.nil_append] at happend
    rcases trimStart_cases text with hnil | ⟨c, rest, hcons, hc⟩
    · exact hnil
    -- The first character would have been cut off with the others.
    · have hmem : c ∈ blanks := by
        rw [happend, hcons]
        exact List.mem_cons_self
      rw [hblanks c hmem] at hc
      exact nomatch hc
  · intro h
    rw [h]
    rfl

/-- The first word of a text. -/
theorem head?_words (text : List Char) :
    (words text).head? =
      if trimStart text = [] then none else some ((trimStart text).takeWhile (!isBlank ·)) := by
  cases text with
  | nil => rfl
  | cons c text =>
    rw [words, List.length_cons, cutWords]
    split
    · next h =>
      rw [if_pos h]
      rfl
    · next h =>
      rw [if_neg h]
      rfl

theorem words_eq_nil_iff : words text = [] ↔ ∀ c ∈ text, isBlank c = true := by
  rw [← trimStart_eq_nil_iff, ← List.head?_eq_none_iff, head?_words]
  by_cases h : trimStart text = [] <;> simp [h]

/-- A text has the same first word without the blanks at its ends. -/
theorem head?_words_trim (text : List Char) : (words (trim text)).head? = (words text).head? := by
  rw [head?_words, head?_words, trimStart_trim]
  have hnil : trim text = [] ↔ trimStart text = [] := by
    rw [trim_eq_nil_iff, trimStart_eq_nil_iff]
  rcases exists_trimEnd_append (trimStart text) with ⟨blanks, hblanks, happend⟩
  have hword : (trim text).takeWhile (!isBlank ·) = (trimStart text).takeWhile (!isBlank ·) := by
    rw [← happend, takeWhile_append_blanks hblanks]
    rfl
  rw [hword]
  by_cases h : trimStart text = []
  · rw [if_pos h, if_pos (hnil.2 h)]
  · rw [if_neg h, if_neg (mt hnil.1 h)]

/-! ### What is cut off -/

/-- What is cut off the ends of a text is blank. -/
theorem exists_trim (text : List Char) :
    ∃ before after, (∀ c ∈ before, isBlank c = true) ∧ (∀ c ∈ after, isBlank c = true) ∧
      before ++ (trim text ++ after) = text := by
  rcases exists_trimEnd_append (trimStart text) with ⟨after, hafter, happend⟩
  refine ⟨text.takeWhile isBlank, after, ?_, hafter, ?_⟩
  · exact fun c hc => List.all_eq_true.1 List.all_takeWhile c hc
  · rw [trim, happend, trimStart, List.takeWhile_append_dropWhile]

theorem mem_of_mem_trim {c : Char} (hc : c ∈ trim text) : c ∈ text := by
  rcases exists_trim text with ⟨before, after, -, -, happend⟩
  rw [← happend]
  exact List.mem_append_right _ (List.mem_append_left _ hc)

theorem trimStart_blanks_append {blanks : List Char} (h : ∀ c ∈ blanks, isBlank c = true)
    (text : List Char) : trimStart (blanks ++ text) = trimStart text := by
  induction blanks with
  | nil => rfl
  | cons c blanks ih =>
    rw [List.cons_append, trimStart, List.dropWhile_cons_of_pos (h c List.mem_cons_self)]
    exact ih fun d hd => h d (List.mem_cons_of_mem c hd)

theorem trimEnd_append_blanks {blanks : List Char} (h : ∀ c ∈ blanks, isBlank c = true)
    (text : List Char) : trimEnd (text ++ blanks) = trimEnd text := by
  have hreverse : ∀ c ∈ blanks.reverse, isBlank c = true :=
    fun c hc => h c (List.mem_reverse.1 hc)
  have htrim := trimStart_blanks_append hreverse text.reverse
  rw [trimStart, trimStart] at htrim
  rw [trimEnd, trimEnd, List.reverse_append, htrim]

theorem trim_blanks_append {blanks : List Char} (h : ∀ c ∈ blanks, isBlank c = true)
    (text : List Char) : trim (blanks ++ text) = trim text := by
  rw [trim, trim, trimStart_blanks_append h]

theorem trim_append_blanks {blanks : List Char} (h : ∀ c ∈ blanks, isBlank c = true)
    (text : List Char) : trim (text ++ blanks) = trim text := by
  by_cases htext : ∀ c ∈ text, isBlank c = true
  · rw [trim_eq_nil_iff.2 htext]
    refine trim_eq_nil_iff.2 fun c hc => ?_
    rcases List.mem_append.1 hc with hc | hc
    · exact htext c hc
    · exact h c hc
  -- What the text begins with is cut off in front of a character that stays.
  · rcases trimStart_cases text with hnil | ⟨c, rest, hcons, hc⟩
    · exact absurd (trimStart_eq_nil_iff.1 hnil) htext
    · have hfront : ∀ d ∈ text.takeWhile isBlank, isBlank d = true :=
        fun d hd => List.all_eq_true.1 List.all_takeWhile d hd
      have hsplit : text = text.takeWhile isBlank ++ c :: rest := by
        rw [← hcons, trimStart, List.takeWhile_append_dropWhile]
      have hstart : trimStart (text ++ blanks) = trimStart text ++ blanks := by
        rw [hcons, hsplit, List.append_assoc, trimStart_blanks_append hfront, List.cons_append,
          trimStart_of_not_isBlank hc]
      rw [trim, trim, hstart, trimEnd_append_blanks h]

/-- A text that neither begins nor ends with a blank is left as it is. -/
theorem trim_eq_self (hhead : ∀ c ∈ text.head?, isBlank c = false)
    (hlast : ∀ c ∈ text.getLast?, isBlank c = false) : trim text = text := by
  have hid : ∀ other : List Char, (∀ c ∈ other.head?, isBlank c = false) →
      trimStart other = other := by
    intro other hother
    cases other with
    | nil => rfl
    | cons c other => exact trimStart_of_not_isBlank (hother c (Option.mem_some.2 rfl))
  have hreverse := hid text.reverse fun c hc => hlast c (List.head?_reverse ▸ hc)
  rw [trimStart] at hreverse
  rw [trim, hid text hhead, trimEnd, hreverse, List.reverse_reverse]

/-- What is left of a text neither begins nor ends with a blank. -/
theorem isBlank_ends_trim (text : List Char) :
    (∀ c ∈ (trim text).head?, isBlank c = false) ∧
      ∀ c ∈ (trim text).getLast?, isBlank c = false := by
  have hstart : ∀ other : List Char, ∀ c ∈ (trimStart other).head?, isBlank c = false := by
    intro other c hc
    rcases trimStart_cases other with hnil | ⟨d, rest, hcons, hd⟩
    · rw [hnil] at hc
      exact nomatch hc
    · rw [hcons, List.head?_cons, Option.mem_some_iff] at hc
      exact hc ▸ hd
  constructor
  · rw [← trimStart_trim]
    exact hstart (trim text)
  · rw [← List.head?_reverse, trim, trimEnd, List.reverse_reverse]
    exact hstart (trimStart text).reverse

/-- A text that does not begin with a blank keeps its first character. -/
theorem head?_trim_cons {c : Char} (hc : isBlank c = false) :
    (trim (c :: text)).head? = some c := by
  rw [trim, trimStart_of_not_isBlank hc]
  rcases exists_trimEnd_append (c :: text) with ⟨blanks, hblanks, happend⟩
  cases htrim : trimEnd (c :: text) with
  | nil =>
    rw [htrim, List.nil_append] at happend
    have hblank := hblanks c (happend ▸ List.mem_cons_self)
    rw [hc] at hblank
    exact nomatch hblank
  | cons d front =>
    rw [htrim, List.cons_append, List.cons.injEq] at happend
    rw [happend.1, List.head?_cons]

/-- A text of characters that are not blank is left as it is. -/
theorem trim_of_not_isBlank (h : ∀ c ∈ text, isBlank c = false) : trim text = text :=
  trim_eq_self (fun c hc => h c (List.mem_of_mem_head? hc))
    fun c hc => h c (List.mem_of_mem_getLast? hc)

/-! ### Texts with given words -/

/-- A text in which words stand, with blanks around them and at least one between each two. -/
inductive Spaced : List Char → List (List Char) → Prop
  | blank {text : List Char} (h : ∀ c ∈ text, isBlank c = true) : Spaced text []
  | word {blanks word rest : List Char} {others : List (List Char)}
      (hblanks : ∀ c ∈ blanks, isBlank c = true) (hne : word ≠ [])
      (hword : ∀ c ∈ word, isBlank c = false) (hrest : ∀ c ∈ rest.head?, isBlank c = true)
      (h : Spaced rest others) : Spaced (blanks ++ (word ++ rest)) (word :: others)

/-- A word ends where a blank follows. -/
theorem trimStart_word {blanks word rest : List Char} (hblanks : ∀ c ∈ blanks, isBlank c = true)
    (hne : word ≠ []) (hword : ∀ c ∈ word, isBlank c = false) :
    trimStart (blanks ++ (word ++ rest)) = word ++ rest := by
  rw [trimStart_blanks_append hblanks]
  rcases List.exists_cons_of_ne_nil hne with ⟨c, tail, rfl⟩
  rw [List.cons_append, trimStart_of_not_isBlank (hword c List.mem_cons_self)]

theorem takeWhile_word {word rest : List Char} (hword : ∀ c ∈ word, isBlank c = false)
    (hrest : ∀ c ∈ rest.head?, isBlank c = true) :
    (word ++ rest).takeWhile (!isBlank ·) = word ∧
      (word ++ rest).dropWhile (!isBlank ·) = rest := by
  induction word with
  | nil =>
    cases rest with
    | nil => exact ⟨rfl, rfl⟩
    | cons c rest =>
      have hc : isBlank c = true := hrest c (Option.mem_some.2 rfl)
      simp [hc]
  | cons c word ih =>
    have hc := hword c List.mem_cons_self
    rcases ih fun d hd => hword d (List.mem_cons_of_mem c hd) with ⟨htake, hdrop⟩
    rw [List.cons_append, List.takeWhile_cons_of_pos (by simp [hc]),
      List.dropWhile_cons_of_pos (by simp [hc]), htake, hdrop]
    exact ⟨rfl, rfl⟩

namespace Spaced

variable {found : List (List Char)}

theorem length_le (h : Spaced text found) : found.length ≤ text.length := by
  induction h with
  | blank => exact Nat.zero_le _
  | word hblanks hne hword hrest h ih =>
    have hpos := List.length_pos_iff.2 hne
    rw [List.length_cons, List.length_append, List.length_append]
    omega

theorem ne_nil_of_mem (h : Spaced text found) {word : List Char} (hword : word ∈ found) :
    word ≠ [] := by
  induction h with
  | blank => exact absurd hword List.not_mem_nil
  | word _ hne _ _ _ ih =>
    rcases List.mem_cons.1 hword with rfl | hothers
    · exact hne
    · exact ih hothers

theorem cutWords_eq (h : Spaced text found) {count : Nat} (hcount : found.length ≤ count) :
    cutWords count text = found := by
  induction h generalizing count with
  | blank h =>
    have hnil := trimStart_eq_nil_iff.2 h
    cases count <;> rw [cutWords, hnil]
  | @word blanks word rest others hblanks hne hword hrest h ih =>
    cases count with
    | zero => exact absurd hcount (by simp)
    | succ count =>
      have hcut := takeWhile_word hword hrest
      rw [cutWords, trimStart_word hblanks hne hword]
      split
      next hnil => exact absurd (List.append_eq_nil_iff.1 hnil).1 hne
      next => rw [hcut.1, hcut.2, ih (Nat.le_of_succ_le_succ hcount)]

/-- The words that stand in a text are its words. -/
theorem words_eq (h : Spaced text found) : words text = found :=
  h.cutWords_eq h.length_le

/-- What is left of a text with one word in it is the word. -/
theorem trim_eq {word : List Char} (h : Spaced text [word]) : trim text = word := by
  cases h with
  | word hblanks hne hword hrest h =>
    cases h with
    | blank hblank =>
      rw [trim_blanks_append hblanks, trim_append_blanks hblank, trim_of_not_isBlank hword]

end Spaced

/-- Every text is made of its words in this way. -/
theorem spaced_cutWords {count : Nat} (h : text.length ≤ count) :
    Spaced text (cutWords count text) := by
  induction count generalizing text with
  | zero =>
    obtain rfl := List.length_eq_zero_iff.1 (Nat.le_zero.1 h)
    exact .blank fun c hc => absurd hc List.not_mem_nil
  | succ count ih =>
    rw [cutWords]
    rcases trimStart_cases text with hnil | ⟨c, rest, hcons, hc⟩
    · rw [hnil]
      exact .blank (trimStart_eq_nil_iff.1 hnil)
    · have htake : (c :: rest).takeWhile (!isBlank ·) = c :: rest.takeWhile (!isBlank ·) :=
        List.takeWhile_cons_of_pos (by simp [hc])
      have hdrop : (c :: rest).dropWhile (!isBlank ·) = rest.dropWhile (!isBlank ·) :=
        List.dropWhile_cons_of_pos (by simp [hc])
      have hparts : text = text.takeWhile isBlank ++
          ((c :: rest.takeWhile (!isBlank ·)) ++ rest.dropWhile (!isBlank ·)) := by
        rw [List.cons_append, List.takeWhile_append_dropWhile, ← hcons, trimStart,
          List.takeWhile_append_dropWhile]
      have hlength : (rest.dropWhile (!isBlank ·)).length ≤ count := by
        have hparts_length := congrArg List.length hparts
        simp only [List.length_append, List.length_cons] at hparts_length
        omega
      rw [hcons]
      dsimp only
      rw [htake, hdrop]
      have hblanks : ∀ d ∈ text.takeWhile isBlank, isBlank d = true :=
        fun d hd => List.all_eq_true.1 List.all_takeWhile d hd
      have hword : ∀ d ∈ c :: rest.takeWhile (!isBlank ·), isBlank d = false := by
        refine List.forall_mem_cons.2 ⟨hc, fun d hd => ?_⟩
        simpa using List.all_eq_true.1 List.all_takeWhile d hd
      have hafter : ∀ d ∈ (rest.dropWhile (!isBlank ·)).head?, isBlank d = true := by
        intro d hd
        have hhead := List.head?_dropWhile_not (!isBlank ·) rest
        rw [Option.mem_def.1 hd] at hhead
        simpa using hhead
      have hspaced := Spaced.word hblanks (List.cons_ne_nil _ _) hword hafter (ih hlength)
      rwa [← hparts] at hspaced

/-- The words that stand in a text are its words, and no others. -/
theorem spaced_iff {found : List (List Char)} : Spaced text found ↔ words text = found := by
  constructor
  · exact Spaced.words_eq
  · rintro rfl
    exact spaced_cutWords (Nat.le_refl _)

instance (text : List Char) (found : List (List Char)) : Decidable (Spaced text found) :=
  decidable_of_iff _ spaced_iff.symm

/-- The words hold characters of the text only. -/
theorem mem_of_mem_words {word : List Char} {c : Char} (hword : word ∈ words text) (hc : c ∈ word) :
    c ∈ text := by
  have hcut : ∀ (count : Nat) (text : List Char), word ∈ cutWords count text → c ∈ text := by
    intro count
    induction count with
    | zero =>
      intro text h
      rw [cutWords] at h
      split at h
      next => exact absurd h List.not_mem_nil
      next =>
        rw [List.mem_singleton] at h
        rw [h] at hc
        exact (List.dropWhile_suffix _).subset hc
    | succ count ih =>
      intro text h
      rw [cutWords] at h
      split at h
      next => exact absurd h List.not_mem_nil
      next =>
        rcases List.mem_cons.1 h with rfl | h
        · exact (List.dropWhile_suffix _).subset ((List.takeWhile_prefix _).subset hc)
        · exact (List.dropWhile_suffix _).subset ((List.dropWhile_suffix _).subset (ih _ h))
  exact hcut _ _ hword

end Text

end FiniteState
