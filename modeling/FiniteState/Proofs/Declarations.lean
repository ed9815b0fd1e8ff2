import FiniteState.Proofs.Writing
import Mathlib.Data.Bool.AllAny

/-!
# Pattern Declarations

A content declares a pattern on its first line that counts. Whether it does and what the pattern is
are found out in two passes over the lines, and the first one looks at the line in lower case while
the second one cuts the keyword off the line as it stands. They agree, as what a declaration looks
like can be said without either of them: a keyword stands there, each letter of it in one case or
the other, with blanks in front, and the pattern is what follows it without the blanks at its ends.

A text may have more characters in lower case than it has as it stands. So cutting as many
characters off the line as the keyword has is right only because of what the keywords are made of.
There is one character with two characters for its form in lower case, and one outside ASCII with
an ASCII letter for it. The letters that begin these forms are in neither keyword, so a form in
lower case that begins with a letter of a keyword is that of the letter itself, in either case, and
it is nothing but the letter (`lowered_cases`).

## Main definitions

* `Description.patternKeywords`: The keywords that declare a pattern.
* `Description.EitherCase`, `Description.Recased`: A text is a keyword with each letter in one case
  or the other.
* `Description.Declares`: A content declares a pattern.

## Theorems

* `Description.lowered_cases`: Where a letter of a keyword comes from.
* `Description.prefix_lower_iff`: A line in lower case begins with a keyword if the line does, in
  some mixture of cases.
* `Description.declaredPattern?_eq_some_iff`: What a line declares.
* `Description.insignificant_iff`: Which lines do not count.
* `Description.isPattern_patternOf_declares`: A declaration is found where there is one, and its
  pattern is what it declares.
-/

namespace FiniteState

namespace Description

/-- The keywords that declare a pattern. -/
def patternKeywords : List String :=
  ["regex:", "pattern:"]

/-- A character is a small letter or the capital of it. -/
def EitherCase (letter c : Char) : Prop :=
  c = letter ∨ c = letter.toUpper

instance (letter c : Char) : Decidable (EitherCase letter c) :=
  inferInstanceAs (Decidable (c = letter ∨ c = letter.toUpper))

/-- A text is a keyword with each letter in one case or the other. -/
def Recased (keyword : String) (spelling : List Char) : Prop :=
  List.Forall₂ EitherCase keyword.toList spelling

/-- A content declares a pattern. The lines before the declaration do not count, and nothing is said
    about those after it. -/
inductive Declares : List Char → List Char → Prop
  | mk {before after : List (List Char)} {left spelling tail pattern : List Char} {keyword : String}
      (hkeyword : keyword ∈ patternKeywords) (hspelling : Recased keyword spelling)
      (hbefore : ∀ line ∈ before, Insignificant line ∧ '\n' ∉ line)
      (hleft : ∀ c ∈ left, Text.isBlank c = true) (htail : Padded pattern tail)
      (hline : '\n' ∉ left ++ (spelling ++ tail)) (hafter : ∀ line ∈ after, '\n' ∉ line) :
      Declares (Text.unlines (before ++ (left ++ (spelling ++ tail)) :: after)) pattern

/-! ### Keywords in lower case -/

/-- The characters of the keywords. -/
def keywordLetters : List Char :=
  patternKeywords.flatMap String.toList

/-- What a character becomes in lower case, with what stands before and after it. -/
def lowered (before : List Char) (c : Char) (rest : List Char) : List Char :=
  if c = 'Σ' then
    if Text.startsCased before && !Text.startsCased rest then ['ς'] else ['σ']
  else Text.lowerChar c

theorem lowerAfter_cons (before : List Char) (c : Char) (rest : List Char) :
    Text.lowerAfter before (c :: rest) =
      lowered before c rest ++ Text.lowerAfter (c :: before) rest :=
  rfl

section Letters

variable {k c : Char} {before rest text : List Char}

/-- The letters of a keyword are what both of their cases become in lower case. -/
theorem lowered_of_recased (hk : k ∈ keywordLetters) (h : EitherCase k c)
    (before rest : List Char) : lowered before c rest = [k] := by
  have hforms : ∀ k ∈ keywordLetters, (k ≠ 'Σ' ∧ Text.lowerChar k = [k]) ∧
      k.toUpper ≠ 'Σ' ∧ Text.lowerChar k.toUpper = [k] :=
    List.all_iff_forall_prop.1 (by decide +kernel)
  rcases hforms k hk with ⟨hsame, hupper⟩
  unfold lowered
  rcases h with rfl | rfl
  · rw [if_neg hsame.1, hsame.2]
  · rw [if_neg hupper.1, hupper.2]

/-- A run of letters is at or above the capital letters of ASCII and at their distance, or it is the
    Kelvin sign, or its forms in lower case are outside ASCII. -/
theorem loweringRuns_cases : ∀ run ∈ Text.loweringRuns, (0x41 ≤ run.first ∧ run.distance = 32) ∨
    (run.first = 0x212a ∧ run.last = 0x212a ∧ run.distance = -8383) ∨
      128 ≤ run.first + run.distance := by
  decide +kernel

theorem toNat_of_ofNat {code : Nat} (h : Char.ofNat code = k) (hk : k ≠ '\x00') :
    k.toNat = code := by
  by_cases hvalid : code.isValidChar
  · rw [← h, toNat_ofNat hvalid]
  · rw [Char.ofNat, dif_neg hvalid] at h
    exact absurd h.symm hk

/-- A form in lower case that begins with a letter of a keyword is that of the letter, in one case
    or the other, and nothing but the letter. -/
theorem lowered_cases (hk : k ∈ keywordLetters) {tail : List Char}
    (h : lowered before c rest = k :: tail) : tail = [] ∧ EitherCase k c := by
  have hletters : ∀ k ∈ keywordLetters, (k ≠ 'ς' ∧ k ≠ 'σ' ∧ k ≠ 'i' ∧ k ≠ '\x00') ∧
      k.toNat < 128 ∧ k.toNat ≠ 0x6b ∧ (0x61 ≤ k.toNat → k.toUpper.toNat = k.toNat - 32) :=
    List.all_iff_forall_prop.1 (by decide +kernel)
  rcases hletters k hk with ⟨⟨hend, hsigma, hi, hnull⟩, hascii, hkelvin, hupper⟩
  unfold lowered at h
  split at h
  next =>
    -- Both forms of a sigma are outside ASCII.
    split at h
    next => exact absurd (List.cons.inj h).1.symm hend
    next => exact absurd (List.cons.inj h).1.symm hsigma
  next =>
    unfold Text.lowerChar at h
    split at h
    next => exact absurd (List.cons.inj h).1.symm hi
    next =>
      split at h
      next run hfind =>
        rcases List.cons.inj h with ⟨hform, htail⟩
        have hcode := toNat_of_ofNat hform hnull
        have hcovers : run.covers c.toNat = true := by simpa using List.find?_some hfind
        simp only [Text.LoweringRun.covers, Bool.and_eq_true, decide_eq_true_eq] at hcovers
        rcases hcovers with ⟨⟨hfirst, hlast⟩, -⟩
        refine ⟨htail.symm, Or.inr (Char.toNat_inj.1 ?_)⟩
        rcases loweringRuns_cases run (List.mem_of_find?_eq_some hfind) with
          ⟨hcapital, hdistance⟩ | ⟨hone, htwo, hdistance⟩ | hfar
        · rw [hdistance] at hcode
          rw [hupper (by omega)]
          omega
        -- The Kelvin sign becomes a letter that is in no keyword.
        · omega
        · omega
      next =>
        rcases List.cons.inj h with ⟨hsame, htail⟩
        exact ⟨htail.symm, Or.inl hsame⟩

theorem lowered_ne_nil (before : List Char) (c : Char) (rest : List Char) :
    lowered before c rest ≠ [] := by
  unfold lowered Text.lowerChar
  repeat' split
  all_goals exact List.cons_ne_nil _ _

end Letters

/-- A text in lower case begins with letters of keywords if the text does, each in one case or the
    other. -/
theorem prefix_lowerAfter_iff {keyword : List Char} (hletters : ∀ k ∈ keyword, k ∈ keywordLetters)
    (before text : List Char) :
    keyword <+: Text.lowerAfter before text ↔ ∃ spelling rest, text = spelling ++ rest ∧
      List.Forall₂ EitherCase keyword spelling := by
  induction keyword generalizing before text with
  | nil => simp
  | cons k keyword ih =>
    rcases List.forall_mem_cons.1 hletters with ⟨hk, hrest⟩
    cases text with
    | nil => simp [Text.lowerAfter]
    | cons c text =>
      rw [lowerAfter_cons]
      constructor
      · intro h
        rcases List.exists_cons_of_ne_nil (lowered_ne_nil before c text) with ⟨d, tail, hform⟩
        rw [hform, List.cons_append, List.cons_prefix_cons] at h
        rcases h with ⟨rfl, h⟩
        -- A keyword letter comes from that letter in one case or the other, and from nothing else.
        rcases lowered_cases hk hform with ⟨rfl, hc⟩
        rcases (ih hrest _ _).1 h with ⟨spelling, rest, rfl, hspelling⟩
        exact ⟨c :: spelling, rest, rfl, .cons hc hspelling⟩
      · rintro ⟨spelling, rest, htext, hspelling⟩
        cases hspelling with
        | @cons _ d _ spelling hd hspelling =>
          obtain ⟨rfl, rfl⟩ := List.cons.inj htext
          rw [lowered_of_recased hk hd, List.singleton_append, List.cons_prefix_cons]
          exact ⟨rfl, (ih hrest _ _).2 ⟨spelling, rest, rfl, hspelling⟩⟩

/-- A line in lower case begins with a keyword if the line does, in some mixture of cases. -/
theorem prefix_lower_iff {keyword : String} (hkeyword : keyword ∈ patternKeywords)
    (line : List Char) :
    keyword.toList <+: Text.lower line ↔
      ∃ spelling rest, line = spelling ++ rest ∧ Recased keyword spelling :=
  prefix_lowerAfter_iff (fun _ hk => List.mem_flatMap.2 ⟨keyword, hkeyword, hk⟩) [] line

/-! ### Declarations -/

section Lines

variable {keyword : String} {line content pattern : List Char}

theorem afterKeyword?_eq_some_iff (hkeyword : keyword ∈ patternKeywords) :
    afterKeyword? keyword line = some pattern ↔
      ∃ spelling rest, line = spelling ++ rest ∧ Recased keyword spelling ∧
        Text.trim rest = pattern := by
  unfold afterKeyword?
  -- The cut is made by the length of the keyword, and its spelling is of that length.
  have hdrop : ∀ spelling rest : List Char, Recased keyword spelling →
      (spelling ++ rest).drop keyword.toList.length = rest :=
    fun spelling rest h => List.drop_left' h.length_eq.symm
  constructor
  · intro h
    split at h
    next hprefix =>
      rcases (prefix_lower_iff hkeyword line).1 (List.isPrefixOf_iff_prefix.1 hprefix) with
        ⟨spelling, rest, rfl, hspelling⟩
      rw [hdrop _ _ hspelling, Option.some.injEq] at h
      exact ⟨spelling, rest, rfl, hspelling, h⟩
    next => exact nomatch h
  · rintro ⟨spelling, rest, rfl, hspelling, htrim⟩
    have hprefix := (prefix_lower_iff hkeyword _).2 ⟨spelling, rest, rfl, hspelling⟩
    rw [if_pos (List.isPrefixOf_iff_prefix.2 hprefix), hdrop _ _ hspelling, htrim]

/-- No line begins with both keywords. -/
theorem afterKeyword?_regex_eq_none {spelling rest : List Char}
    (h : Recased "pattern:" spelling) : afterKeyword? "regex:" (spelling ++ rest) = none := by
  rw [Option.eq_none_iff_forall_ne_some]
  intro pattern hsome
  rcases (afterKeyword?_eq_some_iff List.mem_cons_self).1 hsome with ⟨other, rest', heq, hother, -⟩
  -- The first letters of the keywords differ in every case.
  cases h with
  | @cons _ c _ _ hc =>
    cases hother with
    | @cons _ d _ _ hd =>
      have hsame : c = d := (List.cons.inj heq).1
      rw [hsame] at hc
      rcases hc with rfl | rfl <;> exact absurd hd (by decide)

/-- What a line declares. -/
theorem declaredPattern?_eq_some_iff :
    declaredPattern? line = some pattern ↔ ∃ keyword ∈ patternKeywords, ∃ spelling rest,
      line = spelling ++ rest ∧ Recased keyword spelling ∧ Text.trim rest = pattern := by
  have hregex : "regex:" ∈ patternKeywords := List.mem_cons_self
  have hpattern : "pattern:" ∈ patternKeywords := List.mem_cons_of_mem _ List.mem_cons_self
  rw [declaredPattern?, Option.or_eq_some_iff]
  constructor
  · rintro (h | ⟨-, h⟩)
    · exact ⟨_, hregex, (afterKeyword?_eq_some_iff hregex).1 h⟩
    · exact ⟨_, hpattern, (afterKeyword?_eq_some_iff hpattern).1 h⟩
  · rintro ⟨keyword, hkeyword, hline⟩
    have hkeywords : keyword = "regex:" ∨ keyword = "pattern:" := by
      simpa [patternKeywords] using hkeyword
    rcases hkeywords with rfl | rfl
    · exact Or.inl ((afterKeyword?_eq_some_iff hregex).2 hline)
    · refine Or.inr ⟨?_, (afterKeyword?_eq_some_iff hpattern).2 hline⟩
      rcases hline with ⟨spelling, rest, rfl, hspelling, -⟩
      exact afterKeyword?_regex_eq_none hspelling

theorem exists_of_mem_forall₂ {α β : Type} {related : α → β → Prop} {left : List α}
    {right : List β} (h : List.Forall₂ related left right) {b : β} (hb : b ∈ right) :
    ∃ a ∈ left, related a b := by
  induction h with
  | nil => exact absurd hb List.not_mem_nil
  | @cons a d left right hd _ ih =>
    rcases List.mem_cons.1 hb with rfl | hb
    · exact ⟨a, List.mem_cons_self, hd⟩
    · rcases ih hb with ⟨a', ha', hrelated⟩
      exact ⟨a', List.mem_cons_of_mem a ha', hrelated⟩

/-- What holds of the letters of the keywords in both cases holds of all that the keywords can be
    written with. -/
theorem Recased.forall_mem {spelling : List Char} {holds : Char → Prop}
    (hkeyword : keyword ∈ patternKeywords) (h : Recased keyword spelling)
    (hletters : ∀ k ∈ keywordLetters, holds k ∧ holds k.toUpper) : ∀ c ∈ spelling, holds c := by
  intro c hc
  rcases exists_of_mem_forall₂ h hc with ⟨k, hk, rfl | rfl⟩
  · exact (hletters c (List.mem_flatMap.2 ⟨keyword, hkeyword, hk⟩)).1
  · exact (hletters k (List.mem_flatMap.2 ⟨keyword, hkeyword, hk⟩)).2

theorem Recased.ne_nil {spelling : List Char} (hkeyword : keyword ∈ patternKeywords)
    (h : Recased keyword spelling) : spelling ≠ [] := by
  have hlong : ∀ keyword ∈ patternKeywords, 0 < keyword.toList.length := by decide
  have hlength := hlong keyword hkeyword
  rw [h.length_eq] at hlength
  exact List.ne_nil_of_length_pos hlength

/-- A keyword has neither blanks in it nor a comment sign. -/
theorem Recased.isBlank {spelling : List Char} (hkeyword : keyword ∈ patternKeywords)
    (h : Recased keyword spelling) : ∀ c ∈ spelling, Text.isBlank c = false ∧ c ≠ '#' :=
  h.forall_mem hkeyword (List.all_iff_forall_prop.1 (by decide +kernel))

/-- Behind a text without blanks at its ends, only what ends the rest is cut off. -/
theorem trim_append_of_ends {front tail : List Char} (hne : front ≠ [])
    (hfront : ∀ c ∈ front, Text.isBlank c = false) :
    Text.trim (front ++ tail) = front ++ Text.trimEnd tail := by
  have hstart : Text.trimStart (front ++ tail) = front ++ tail := by
    rcases List.exists_cons_of_ne_nil hne with ⟨c, rest, rfl⟩
    exact Text.trimStart_of_not_isBlank (hfront c List.mem_cons_self)
  -- Whatever is cut off from the end, it stops at the last character in front.
  have hstop : front.reverse.dropWhile Text.isBlank = front.reverse := by
    rcases List.exists_cons_of_ne_nil (mt List.reverse_eq_nil_iff.1 hne) with ⟨c, rest, hcons⟩
    have hc : c ∈ front := List.mem_reverse.1 (hcons ▸ List.mem_cons_self)
    rw [hcons]
    exact List.dropWhile_cons_of_neg (by simp [hfront c hc])
  rw [Text.trim, hstart, Text.trimEnd, Text.trimEnd, List.reverse_append, List.dropWhile_append]
  by_cases hblank : (tail.reverse.dropWhile Text.isBlank).isEmpty = true
  · rw [if_pos hblank, hstop, List.isEmpty_iff.1 hblank]
    simp
  · rw [if_neg hblank, List.reverse_append, List.reverse_reverse]

/-- A declaration without the blanks around it is the keyword and what follows. -/
theorem trim_declaration {left spelling tail : List Char} (hkeyword : keyword ∈ patternKeywords)
    (hspelling : Recased keyword spelling) (hleft : ∀ c ∈ left, Text.isBlank c = true) :
    Text.trim (left ++ (spelling ++ tail)) = spelling ++ Text.trimEnd tail := by
  rw [Text.trim_blanks_append hleft]
  exact trim_append_of_ends (hspelling.ne_nil hkeyword)
    fun c hc => (hspelling.isBlank hkeyword c hc).1

theorem trim_trimEnd (text : List Char) : Text.trim (Text.trimEnd text) = Text.trim text := by
  rcases Text.exists_trimEnd_append text with ⟨blanks, hblanks, happend⟩
  rw [← Text.trim_append_blanks hblanks, happend]

/-- The lines that do not count are those of which nothing or a comment is left. -/
theorem insignificant_iff :
    Insignificant line ↔ Text.trim line = [] ∨ (Text.trim line).head? = some '#' := by
  constructor
  · exact Insignificant.trim_cases
  · rintro (hnil | hcomment)
    · exact .blank (Text.trim_eq_nil_iff.1 hnil)
    · rcases Text.exists_trim line with ⟨before, after, hbefore, -, happend⟩
      rcases List.head?_eq_some_iff.1 hcomment with ⟨rest, hrest⟩
      rw [← happend, hrest, List.cons_append]
      exact .comment hbefore (rest ++ after)

/-- The first line that counts, and those that do not in front of it. -/
theorem significantLines_eq_cons_iff {core : List Char} :
    (∃ rest, significantLines content = core :: rest) ↔ ∃ before line after,
      Text.lines content = before ++ line :: after ∧ (∀ other ∈ before, Insignificant other) ∧
        ¬ Insignificant line ∧ Text.trim line = core := by
  have hcounts : ∀ line : List Char, (decide (Text.trim line ≠ [] ∧
      (Text.trim line).head? ≠ some '#') = true) ↔ ¬ Insignificant line := by
    intro line
    rw [insignificant_iff, not_or, decide_eq_true_iff]
  unfold significantLines
  -- Lines are trimmed first and left out after that, but which ones count can be told before.
  rw [List.filter_map]
  constructor
  · rintro ⟨rest, h⟩
    rcases List.map_eq_cons_iff.1 h with ⟨line, others, hfilter, htrim, -⟩
    rcases List.filter_eq_cons_iff.1 hfilter with ⟨before, after, hlines, hbefore, hline, -⟩
    have hskipped : ∀ other ∈ before, Insignificant other :=
      fun other ho => not_not.1 (mt (hcounts other).2 (hbefore other ho))
    exact ⟨before, line, after, hlines, hskipped, (hcounts line).1 hline, htrim⟩
  · rintro ⟨before, line, after, hlines, hbefore, hline, htrim⟩
    have hskipped : ∀ other ∈ before, ¬ decide (Text.trim other ≠ [] ∧
        (Text.trim other).head? ≠ some '#') = true :=
      fun other ho => mt (hcounts other).1 (not_not.2 (hbefore other ho))
    have hfilter :=
      List.filter_eq_cons_iff.2 ⟨before, after, rfl, hskipped, (hcounts line).2 hline, rfl⟩
    rw [hlines]
    exact ⟨_, by rw [Function.comp_def, hfilter, List.map_cons, htrim]⟩

/-- A content is a pattern if its first line that counts declares one. -/
theorem isPattern_iff :
    isPattern content = true ↔ ∃ core rest pattern, significantLines content = core :: rest ∧
      declaredPattern? core = some pattern := by
  unfold isPattern
  cases significantLines content with
  | nil => simp
  | cons core rest => simp [Option.isSome_iff_exists]

theorem Declares.exists_significantLines (h : Declares content pattern) :
    ∃ core rest, significantLines content = core :: rest ∧
      declaredPattern? core = some pattern := by
  cases h with
  | @mk before after left spelling tail _ keyword hkeyword hspelling hbefore hleft htail hline
      hafter =>
    have hlines : ∀ other ∈ before ++ (left ++ (spelling ++ tail)) :: after, '\n' ∉ other :=
      List.forall_mem_append.2 ⟨fun other ho => (hbefore other ho).2,
        List.forall_mem_cons.2 ⟨hline, hafter⟩⟩
    have htrim : Text.trim (left ++ (spelling ++ tail)) = spelling ++ Text.trimEnd tail :=
      trim_declaration hkeyword hspelling hleft
    -- The line begins with a letter of the keyword, so it is neither blank nor a comment.
    have hcounts : ¬ Insignificant (left ++ (spelling ++ tail)) := by
      rw [insignificant_iff, htrim]
      rcases List.exists_cons_of_ne_nil (hspelling.ne_nil hkeyword) with ⟨c, others, rfl⟩
      have hc := (hspelling.isBlank hkeyword c List.mem_cons_self).2
      simp [hc]
    rcases significantLines_eq_cons_iff.2 ⟨before, _, after, Text.lines_unlines (by simp) hlines,
      fun other ho => (hbefore other ho).1, hcounts, htrim⟩ with ⟨rest, hrest⟩
    refine ⟨_, rest, hrest, declaredPattern?_eq_some_iff.2 ⟨keyword, hkeyword, spelling, _, rfl,
      hspelling, ?_⟩⟩
    rw [trim_trimEnd, htail.trim_eq]

/-- The first line that counts is a declaration if the pattern of it is found. -/
theorem exists_declares (h : isPattern content = true) : ∃ pattern, Declares content pattern := by
  rcases isPattern_iff.1 h with ⟨core, rest, pattern, hcore, hpattern⟩
  rcases significantLines_eq_cons_iff.1 ⟨rest, hcore⟩ with
    ⟨before, line, after, hlines, hbefore, -, htrim⟩
  rcases declaredPattern?_eq_some_iff.1 hpattern with
    ⟨keyword, hkeyword, spelling, inner, hinner, hspelling, hpattern⟩
  rcases Text.exists_trim line with ⟨left, right, hleft, hright, happend⟩
  rw [htrim, hinner, List.append_assoc] at happend
  have hfree : ∀ other ∈ before ++ line :: after, '\n' ∉ other := by
    rw [← hlines]
    exact fun other ho => Text.not_mem_of_mem_lines ho
  rcases List.forall_mem_append.1 hfree with ⟨hfreeBefore, hfreeRest⟩
  rcases List.forall_mem_cons.1 hfreeRest with ⟨hfreeLine, hfreeAfter⟩
  -- The pattern is what follows the keyword, and there are blanks at the end of the line.
  have htail : Padded pattern (inner ++ right) := by
    rw [padded_iff, Text.trim_append_blanks hright, hpattern]
  rw [← Text.unlines_lines content, hlines, ← happend]
  rw [← happend] at hfreeLine
  exact ⟨pattern, .mk hkeyword hspelling (fun other ho => ⟨hbefore other ho, hfreeBefore other ho⟩)
    hleft htail hfreeLine hfreeAfter⟩

end Lines

/-- A content that is found to be a pattern declares one, and what it declares is the pattern that
    is found. Where a pattern is declared, it is found, in whatever case the keyword is written. -/
theorem isPattern_patternOf_declares :
    (∀ content, isPattern content = true →
      ∃ pattern, Declares content pattern ∧ patternOf content = .ok pattern) ∧
    ∀ content pattern, Declares content pattern →
      isPattern content = true ∧ patternOf content = .ok pattern := by
  have hfound : ∀ content pattern, Declares content pattern →
      isPattern content = true ∧ patternOf content = .ok pattern := by
    intro content pattern h
    rcases h.exists_significantLines with ⟨core, rest, hlines, hpattern⟩
    refine ⟨isPattern_iff.2 ⟨core, rest, pattern, hlines, hpattern⟩, ?_⟩
    rw [patternOf, hlines, List.findSome?_cons, hpattern]
  refine ⟨fun content h => ?_, hfound⟩
  rcases exists_declares h with ⟨pattern, hpattern⟩
  exact ⟨pattern, hpattern, (hfound content pattern hpattern).2⟩

/-- A content with a declaration in both cases and with blanks of several kinds around it. Above it
    stands one in a comment, and below it stands another one. -/
def mixedContent : List Char :=
  "# regex: x\n \n\tReGeX:\u00a0 a|b \x0b\npattern: c\n0 a 1".toList

theorem isPattern_patternOf_declares_mixed :
    Declares mixedContent "a|b".toList ∧ isPattern mixedContent = true ∧
      patternOf mixedContent = .ok "a|b".toList ∧ ∃ pattern, Declares mixedContent pattern := by
  have hcomment : Insignificant ([] ++ '#' :: " regex: x".toList) :=
    .comment (List.forall_mem_nil _) _
  have hblank : Insignificant " ".toList := .blank (List.all_iff_forall_prop.1 (by decide))
  have hspelling : Recased "regex:" "ReGeX:".toList := by
    unfold Recased
    decide
  have hbefore : ∀ line ∈ ["# regex: x".toList, " ".toList], Insignificant line ∧ '\n' ∉ line :=
    List.forall_mem_cons.2 ⟨⟨hcomment, by decide⟩, List.forall_mem_singleton.2 ⟨hblank, by decide⟩⟩
  have htail : Padded "a|b".toList "\u00a0 a|b \x0b".toList := by decide
  have hafter : ∀ line ∈ ["pattern: c".toList, "0 a 1".toList], '\n' ∉ line := by decide
  have hleft : ∀ c ∈ "\t".toList, Text.isBlank c = true :=
    List.all_iff_forall_prop.1 (by decide)
  have hdeclares : Declares mixedContent "a|b".toList :=
    .mk List.mem_cons_self hspelling hbefore hleft htail (by decide) hafter
  rcases isPattern_patternOf_declares with ⟨hdetected, hfound⟩
  rcases hfound _ _ hdeclares with ⟨hpattern, hpatternOf⟩
  rcases hdetected _ hpattern with ⟨pattern, hpattern', -⟩
  exact ⟨hdeclares, hpattern, hpatternOf, pattern, hpattern'⟩

end Description

end FiniteState
