import FiniteState.Proofs.Declarations
import FiniteState.Proofs.Loads

/-!
# Keywords That Head Sections

No keyword in lower case heads a section. But a declaration of a pattern may have its keyword in any
case, and headers are compared with the keywords as they stand. So there are lines that are a
declaration and a header, and exactly these: a keyword with a capital letter in it, in the first
column, and nothing but spaces and tabs behind it.

What this comes to is seen in files whose only line that counts is a declaration. The pattern or one
warning is what becomes of the file, unless the declaration is a header. Then it is the lines below
it that are looked at, and none of them counts.

## Main definitions

* `Description.Mistaken`: A declaration that is a header.
* `Loaded.Heeded`: One pattern or one warning is loaded.
* `Loaded.Unheeded`: There is neither a pattern nor a warning.

## Theorems

* `Description.not_heads_of_keyword`: No keyword in lower case heads a section.
* `Description.exists_heads_iff`: Which declarations are headers.
* `Disk.load_declaration`: What becomes of a file with a declaration and nothing else.
-/

namespace FiniteState

namespace Description

/-- A line declares a pattern and is a header: its keyword is not in lower case, and nothing but
    spaces and tabs stands behind it. -/
inductive Mistaken : List Char → Prop
  | mk {keyword : String} {spelling blanks : List Char} (hkeyword : keyword ∈ patternKeywords)
      (hspelling : Recased keyword spelling) (hcase : spelling ≠ keyword.toList)
      (hblanks : ∀ c ∈ blanks, c = ' ' ∨ c = '\t') : Mistaken (spelling ++ blanks)

/-- The letters of the keywords that head no section. -/
def headerLetters : List Char :=
  keywords.flatMap String.toList

section Headers

variable {line name rest : List Char} {keyword word : String}

theorem mem_headerLetters {c : Char} (hword : word ∈ keywords) (hc : c ∈ word.toList) :
    c ∈ headerLetters :=
  List.mem_flatMap.2 ⟨word, hword, hc⟩

/-- The name of a header is what stands before the first colon. -/
theorem Heads.name_eq {front : List Char} (h : Heads (front ++ ':' :: rest) name)
    (hfront : ∀ c ∈ front, Text.isWordChar c = true) :
    name = front ∧ ∀ c ∈ rest, c = ' ' ∨ c = '\t' := by
  generalize hline : front ++ ':' :: rest = line at h
  cases h with
  | @mk first others blanks hfirst hothers hkeyword hblanks =>
    have hword : ∀ c ∈ first :: others, Text.isWordChar c = true :=
      List.forall_mem_cons.2
        ⟨isWordChar_of_isAsciiLetter (isAsciiLetter_eq_true_iff.2 hfirst), hothers⟩
    have hsplit := takeWhile_name hword blanks
    have hsplit' := takeWhile_name hfront rest
    rw [hline, ← List.cons_append, hsplit.1, hsplit.2] at hsplit'
    obtain rfl : blanks = rest := (List.cons.inj hsplit'.2).2
    exact ⟨hsplit'.1, hblanks⟩

theorem Heads.not_mem_keywords (h : Heads line name) : String.ofList name ∉ keywords := by
  cases h with
  | mk hfirst hrest hkeyword hblanks => exact hkeyword

/-- No keyword in lower case heads a section, whatever follows its colon. -/
theorem not_heads_of_keyword (hword : word ∈ keywords) (rest name : List Char) :
    ¬ Heads (word.toList ++ ':' :: rest) name := by
  intro h
  have hletters : ∀ c ∈ headerLetters, Text.isWordChar c = true :=
    List.all_iff_forall_prop.1 (by decide +kernel)
  have hname := (h.name_eq fun c hc => hletters c (mem_headerLetters hword hc)).1
  refine h.not_mem_keywords ?_
  rwa [hname, String.ofList_toList]

theorem isBlank_of_isAsciiLetter {c : Char} (h : isAsciiLetter c = true) :
    Text.isBlank c = false ∧ c ≠ '#' := by
  have hcode : (0x61 ≤ c.toNat ∧ c.toNat ≤ 0x7a) ∨ (0x41 ≤ c.toNat ∧ c.toNat ≤ 0x5a) :=
    isAsciiLetter_eq_true_iff.1 h
  constructor
  · simp only [Text.isBlank, Bool.or_eq_false_iff, Bool.and_eq_false_iff, decide_eq_false_iff_not,
      beq_eq_false_iff_ne]
    omega
  · rintro rfl
    exact absurd hcode (by decide)

/-- A header has no blanks in front and is no comment. -/
theorem Heads.exists_cons (h : Heads line name) :
    ∃ c others, line = c :: others ∧ Text.isBlank c = false ∧ c ≠ '#' := by
  cases h with
  | @mk first others blanks hfirst hothers hkeyword hblanks =>
    exact ⟨first, _, rfl, isBlank_of_isAsciiLetter (isAsciiLetter_eq_true_iff.2 hfirst)⟩

theorem Insignificant.not_heads (h : Insignificant line) (name : List Char) :
    ¬ Heads line name := by
  intro hheads
  rcases hheads.exists_cons with ⟨c, others, rfl, hc, hcomment⟩
  have hhead : (Text.trim (c :: others)).head? = some c := Text.head?_trim_cons hc
  rcases insignificant_iff.1 h with hnil | hsign
  · rw [hnil] at hhead
    exact nomatch hhead
  · rw [hhead, Option.some.injEq] at hsign
    exact hcomment hsign

/-- A keyword in some mixture of cases is a name and a colon. -/
theorem Recased.exists_name {spelling : List Char} (hkeyword : keyword ∈ patternKeywords)
    (h : Recased keyword spelling) :
    ∃ word ∈ keywords, ∃ name, keyword.toList = word.toList ++ [':'] ∧ spelling = name ++ [':'] ∧
      List.Forall₂ EitherCase word.toList name := by
  have hwords : ∀ keyword ∈ patternKeywords, ∃ word ∈ keywords,
      keyword.toList = word.toList ++ [':'] := by
    decide
  rcases hwords keyword hkeyword with ⟨word, hword, hsplit⟩
  have hboth := h.flip
  rw [hsplit] at hboth
  -- The letters come from the word, and the one character after them from the colon.
  have hname := (List.forall₂_take_append _ _ _ hboth).flip
  have hcolon := List.forall₂_drop_append _ _ _ hboth
  rcases List.forall₂_cons_right_iff.1 hcolon with ⟨c, others, hc, hothers, hdrop⟩
  rw [List.forall₂_nil_right_iff.1 hothers] at hdrop
  have hc' : c = ':' := by
    rcases hc with hc | hc
    · exact hc
    -- A colon is the same in either case.
    · rw [hc]
      decide
  refine ⟨word, hword, _, hsplit, ?_, hname⟩
  rw [← hc', ← hdrop, List.take_append_drop]

theorem isAsciiLetter_of_recased (hword : word ∈ keywords)
    (h : List.Forall₂ EitherCase word.toList name) :
    ∀ c ∈ name, isAsciiLetter c = true := by
  have hletters : ∀ k ∈ headerLetters, isAsciiLetter k = true ∧ isAsciiLetter k.toUpper = true :=
    List.all_iff_forall_prop.1 (by decide)
  intro c hc
  rcases exists_of_mem_forall₂ h hc with ⟨k, hk, rfl | rfl⟩
  · exact (hletters c (mem_headerLetters hword hk)).1
  · exact (hletters k (mem_headerLetters hword hk)).2

/-- A mixture of cases that is a keyword has no capital letters in it. -/
theorem eq_of_mem_keywords (hword : word ∈ keywords)
    (h : List.Forall₂ EitherCase word.toList name)
    (hname : String.ofList name ∈ keywords) : name = word.toList := by
  -- The letters of headers are small ones, and their capitals have codes below all of these.
  have hlower : ∀ c ∈ headerLetters, 0x61 ≤ c.toNat ∧ c.toUpper.toNat < 0x61 :=
    List.all_iff_forall_prop.1 (by decide)
  have hsmall : ∀ c ∈ name, 0x61 ≤ c.toNat := by
    intro c hc
    exact (hlower c (mem_headerLetters hname (by rwa [String.toList_ofList]))).1
  rcases List.forall₂_iff_zip.1 h with ⟨hlength, hzip⟩
  have heq : List.Forall₂ (· = ·) word.toList name := by
    refine List.forall₂_iff_zip.2 ⟨hlength, fun {k c} hmem => ?_⟩
    rcases List.of_mem_zip hmem with ⟨hk, hc⟩
    rcases hzip hmem with rfl | rfl
    · rfl
    · have hupper := (hlower k (mem_headerLetters hword hk)).2
      have hcode := hsmall _ hc
      omega
  rw [List.forall₂_eq_eq_eq] at heq
  exact heq.symm

/-- What a line declares if it is all that there is. -/
theorem exists_declaredPattern (hline : '\n' ∉ line) (h : isPattern line = true) :
    ¬ Insignificant line ∧ ∃ pattern, declaredPattern? (Text.trim line) = some pattern := by
  rcases isPattern_iff.1 h with ⟨core, rest, pattern, hcore, hpattern⟩
  rcases significantLines_eq_cons_iff.1 ⟨rest, hcore⟩ with
    ⟨before, other, after, hlines, -, hother, rfl⟩
  rw [Text.lines_of_not_mem hline] at hlines
  have hmem : other ∈ [line] := by simp [hlines]
  obtain rfl := List.mem_singleton.1 hmem
  exact ⟨hother, pattern, hpattern⟩

/-- A declaration is a header if its keyword has a capital letter and nothing but spaces and tabs
    follows. -/
theorem exists_heads_iff (hline : '\n' ∉ line) (h : isPattern line = true) :
    (∃ name, Heads line name) ↔ Mistaken line := by
  constructor
  · rintro ⟨name, hheads⟩
    rcases (exists_declaredPattern hline h).2 with ⟨pattern, hpattern⟩
    rcases declaredPattern?_eq_some_iff.1 hpattern with
      ⟨keyword, hkeyword, spelling, inner, htrim, hspelling, -⟩
    rcases Text.exists_trim line with ⟨left, right, hleft, -, happend⟩
    -- No blanks are in front of the keyword.
    rcases hheads.exists_cons with ⟨c, others, hcons, hc, -⟩
    have hnil : left = [] := by
      by_contra hne
      rcases List.exists_cons_of_ne_nil hne with ⟨d, blanks, rfl⟩
      rw [hcons] at happend
      have hd := hleft d List.mem_cons_self
      rw [(List.cons.inj happend).1, hc] at hd
      exact nomatch hd
    rw [hnil, List.nil_append, htrim, List.append_assoc] at happend
    rcases hspelling.exists_name hkeyword with ⟨word, hword, front, hsplit, rfl, hfront⟩
    have hletters : ∀ c ∈ front, Text.isWordChar c = true :=
      fun c hc => isWordChar_of_isAsciiLetter (isAsciiLetter_of_recased hword hfront c hc)
    rw [← happend, List.append_assoc, List.singleton_append] at hheads
    rcases hheads.name_eq hletters with ⟨rfl, hblanks⟩
    rw [← happend]
    refine .mk hkeyword hspelling ?_ hblanks
    rw [hsplit]
    intro hsame
    rw [(List.append_cancel_right hsame)] at hheads
    exact not_heads_of_keyword hword _ _ hheads
  · rintro ⟨hkeyword, hspelling, hcase, hblanks⟩
    rcases hspelling.exists_name hkeyword with ⟨word, hword, name, hsplit, rfl, hname⟩
    have hletters := isAsciiLetter_of_recased hword hname
    have hkeywords : String.ofList name ∉ keywords := by
      intro hmem
      rw [eq_of_mem_keywords hword hname hmem, hsplit] at hcase
      exact hcase rfl
    cases name with
    | nil =>
      have hempty : ∀ word ∈ keywords, word.toList ≠ [] := by decide
      exact absurd (List.forall₂_nil_right_iff.1 hname) (hempty word hword)
    | cons first rest =>
      rcases List.forall_mem_cons.1 hletters with ⟨hfirst, hrest⟩
      rw [List.cons_append, List.cons_append, List.append_assoc]
      exact ⟨_, .mk (isAsciiLetter_eq_true_iff.1 hfirst)
        (fun c hc => isWordChar_of_isAsciiLetter (hrest c hc)) hkeywords hblanks⟩

end Headers

/-! ### Lines that do not count -/

section Skipped

variable {line : List Char} {before after : List (List Char)}

theorem significantLines_unlines_eq_nil
    (h : ∀ other ∈ after, Insignificant other ∧ '\n' ∉ other) :
    significantLines (Text.unlines after) = [] := by
  cases after with
  | nil => decide
  | cons first others =>
    unfold significantLines
    rw [Text.lines_unlines (by simp) fun other ho => (h other ho).2, List.filter_eq_nil_iff]
    intro core hcore
    rcases List.mem_map.1 hcore with ⟨other, ho, rfl⟩
    rcases insignificant_iff.1 (h other ho).1 with hnil | hcomment
    · simp [hnil]
    · simp [hcomment]

/-- The lines of a content with one line that counts. -/
theorem lines_surrounded (hline : '\n' ∉ line)
    (h : ∀ other ∈ before ++ after, Insignificant other ∧ '\n' ∉ other) :
    Text.lines (Text.unlines (before ++ line :: after)) = before ++ line :: after := by
  rcases List.forall_mem_append.1 h with ⟨hbefore, hafter⟩
  refine Text.lines_unlines (by simp) (List.forall_mem_append.2 ⟨fun other ho => ?_,
    List.forall_mem_cons.2 ⟨hline, fun other ho => ?_⟩⟩)
  · exact (hbefore other ho).2
  · exact (hafter other ho).2

/-- What a line declares is the pattern of the content if no other line counts. -/
theorem pattern_surrounded {pattern : List Char} (hline : '\n' ∉ line)
    (hcounts : ¬ Insignificant line) (hpattern : declaredPattern? (Text.trim line) = some pattern)
    (h : ∀ other ∈ before ++ after, Insignificant other ∧ '\n' ∉ other) :
    isPattern (Text.unlines (before ++ line :: after)) = true ∧
      patternOf (Text.unlines (before ++ line :: after)) = .ok pattern := by
  have hskipped : ∀ other ∈ before, Insignificant other :=
    fun other ho => (h other (List.mem_append_left after ho)).1
  rcases significantLines_eq_cons_iff.2
    ⟨before, line, after, lines_surrounded hline h, hskipped, hcounts, rfl⟩ with ⟨rest, hrest⟩
  refine ⟨isPattern_iff.2 ⟨_, rest, pattern, hrest, hpattern⟩, ?_⟩
  rw [patternOf, hrest, List.findSome?_cons, hpattern]

/-- A content without lines that count describes an automaton without states. -/
theorem read_of_significantLines_eq_nil {content : List Char} (h : significantLines content = []) :
    read content = .ok ⟨⟨0, ∅, ∅, ∅⟩, []⟩ := by
  have hinventory : Inventory.ofStatements [] = ⟨[], [], [], []⟩ := by
    simp [Inventory.ofStatements]
  have hnames : sortNames Text.maxDigits [] = .ok [] := by
    simp [sortNames, pure, Except.pure, bind, Except.bind]
  rw [read, readWithin, h]
  change (Inventory.ofStatements []).assemble Text.maxDigits = _
  rw [hinventory, Inventory.assemble, hnames]
  rfl

end Skipped

end Description

namespace Loaded

open Description

/-- A file with a pattern is heeded: the pattern is loaded under the name of the file, or there is a
    warning on one line. Nothing else is loaded. -/
inductive Heeded (path pattern : List Char) : Loaded → Prop
  | regex {m : Matcher} (h : Matcher.ofPattern pattern = .ok m) :
      Heeded path pattern
        { nothing with regexes := (∅ : Registry Matcher).insert (String.ofList (baseName path)) m }
  | warning {fault : Pattern.Fault} (h : Matcher.ofPattern pattern = .error fault)
      (hline : Text.OneLine ("Warning: Failed to load regex: " ++ fault.message)) :
      Heeded path pattern
        { nothing with warnings := ["Warning: Failed to load regex: " ++ fault.message] }

/-- A file is not heeded: there is neither a pattern nor a warning. At most an automaton without
    states is loaded. -/
inductive Unheeded : Loaded → Prop
  | nothing : Unheeded nothing
  | automaton (name : String) : Unheeded
      { nothing with automata := (∅ : Registry Automaton).insert name ⟨0, ∅, ∅, ∅⟩ }

/-- What is loaded from a file with a pattern tells whether the file was heeded. -/
theorem Heeded.not_unheeded {path pattern : List Char} {loaded : Loaded}
    (h : Heeded path pattern loaded) : ¬ Unheeded loaded := by
  intro hun
  cases h <;> cases hun

variable {line pattern : List Char} {before after : List (List Char)}

/-- Lines that do not count provide an automaton without states, or nothing if they are blank. -/
theorem exists_provides_of_insignificant {part : Part}
    (h : ∀ other ∈ part.body, Insignificant other ∧ '\n' ∉ other) :
    ∃ item, Provides part item ∧ Unheeded (nothing.takeAll [part] [item]) := by
  have hnone : significantLines part.text = [] := significantLines_unlines_eq_nil h
  by_cases hblank : ∀ c ∈ part.text, Text.isBlank c = true
  · exact ⟨_, .blank hblank, .nothing⟩
  · have hother : isPattern part.text = false := by rw [isPattern, hnone]
    exact ⟨_, .automaton hblank hother (read_of_significantLines_eq_nil hnone), .automaton _⟩

/-- A content without headers whose first line that counts is a declaration is heeded. -/
theorem heeded_ofContent {content : List Char} (path : List Char)
    (hheaders : ∀ other ∈ Text.lines content, ∀ name, ¬ Heads other name)
    (hdetected : isPattern content = true) (hpattern : patternOf content = .ok pattern) :
    Heeded path pattern (ofContent path content) := by
  have hdivided : Divided (Text.lines content) (Text.lines content) [] :=
    ⟨by simp, hheaders, List.forall_mem_nil _, List.forall_mem_nil _⟩
  have hmatcher : matcherOf content = (Matcher.ofPattern pattern).mapError .regex := by
    rw [matcherOf, hpattern]
    rfl
  unfold ofContent ofContentBy
  rw [hdivided.sections_eq]
  dsimp only [List.map_nil]
  rw [if_pos hdetected, addRegex, hmatcher]
  cases h : Matcher.ofPattern pattern with
  | ok m => exact .regex h
  | error fault =>
    -- The warning is one line, since the pattern stands on one and the fault quotes no more than
    -- that.
    have honeLine := Pattern.oneLine_of_ofPattern (not_mem_of_patternOf hpattern) h
    refine .warning h ?_
    unfold Text.OneLine at honeLine ⊢
    simp [honeLine]

end Loaded

namespace Disk

open Description Loaded

/-- No keyword in lower case heads a section. A line that declares a pattern does if it is mistaken,
    and what becomes of a file whose only line that counts is such a line depends on that. -/
theorem load_declaration {line : List Char} (hline : '\n' ∉ line)
    (hdetected : isPattern line = true) :
    (∀ word ∈ keywords, ∀ rest name, ¬ Heads (word.toList ++ ':' :: rest) name) ∧
    ((∃ name, Heads line name) ↔ Mistaken line) ∧
    ∃ pattern, patternOf line = .ok pattern ∧
      ∀ (disk : Disk) (path : String) (before after : List (List Char)),
        (∀ other ∈ before ++ after, Insignificant other ∧ '\n' ∉ other) →
          disk.readText path = .ok (Text.unlines (before ++ line :: after)) →
            ∃ loaded, disk.load path = .ok loaded ∧
              (¬ Mistaken line → Heeded path.toList pattern loaded) ∧
              (Mistaken line → Unheeded loaded ∧ ¬ Heeded path.toList pattern loaded) := by
  have hheads := exists_heads_iff hline hdetected
  rcases exists_declaredPattern hline hdetected with ⟨hcounts, pattern, hpattern⟩
  refine ⟨fun word hword => not_heads_of_keyword hword, hheads, pattern, ?_, ?_⟩
  · have halone : patternOf (Text.unlines ([] ++ line :: [])) = .ok pattern :=
      (pattern_surrounded hline hcounts hpattern (List.forall_mem_nil _)).2
    simpa [Text.unlines, List.intercalate] using halone
  · intro disk path before after hskipped hread
    have hlines := lines_surrounded hline hskipped
    have hothers : ∀ other ∈ before ++ after, ∀ name, ¬ Heads other name :=
      fun other ho => (hskipped other ho).1.not_heads
    rcases List.forall_mem_append.1 hothers with ⟨hbefore, hafter⟩
    by_cases hmistaken : Mistaken line
    -- The declaration is the only header, and the lines below it are its section.
    · rcases hheads.2 hmistaken with ⟨name, hname⟩
      have hdivided : Divided (Text.lines (Text.unlines (before ++ line :: after))) before
          [⟨line, name, after⟩] :=
        ⟨by simp [hlines, Part.lines], hbefore, List.forall_mem_singleton.2 hname,
          List.forall_mem_singleton.2 hafter⟩
      have hbody : ∀ other ∈ after, Insignificant other ∧ '\n' ∉ other :=
        fun other ho => hskipped other (List.mem_append_right before ho)
      have hprovides : ∃ item, Provides ⟨line, name, after⟩ item ∧
          Unheeded (nothing.takeAll [⟨line, name, after⟩] [item]) :=
        exists_provides_of_insignificant hbody
      rcases hprovides with ⟨item, hitem, hunheeded⟩
      exact ⟨_, load_eq_of_divided hread hdivided (List.cons_ne_nil _ _) (.cons hitem .nil),
        fun hnot => absurd hmistaken hnot,
        fun _ => ⟨hunheeded, fun hheeded => hheeded.not_unheeded hunheeded⟩⟩
    · have hnone : ∀ other ∈ Text.lines (Text.unlines (before ++ line :: after)),
          ∀ name, ¬ Heads other name := by
        rw [hlines]
        refine List.forall_mem_append.2 ⟨hbefore, List.forall_mem_cons.2 ⟨?_, hafter⟩⟩
        exact fun name hname => hmistaken (hheads.1 ⟨name, hname⟩)
      rcases pattern_surrounded hline hcounts hpattern hskipped with ⟨hfound, hfoundPattern⟩
      exact ⟨_, load_eq_of_readText hread,
        fun _ => heeded_ofContent path.toList hnone hfound hfoundPattern,
        fun hyes => absurd hyes hmistaken⟩

/-- The keyword has a capital letter, but a pattern follows, so the file is heeded. -/
theorem load_declaration_followed : '\n' ∉ "Pattern: a|b".toList ∧
    isPattern "Pattern: a|b".toList = true ∧
      ∃ loaded, (asciiDisk "# a\nPattern: a|b\n".toList).load "only.re" = .ok loaded ∧
        Heeded "only.re".toList "a|b".toList loaded := by
  have hline : '\n' ∉ "Pattern: a|b".toList := by decide
  have hdetected : isPattern "Pattern: a|b".toList = true := by decide +kernel
  have hpattern : patternOf "Pattern: a|b".toList = .ok "a|b".toList := by decide +kernel
  have hread : (asciiDisk "# a\nPattern: a|b\n".toList).readText "only.re" =
      .ok (Text.unlines (["# a".toList] ++ "Pattern: a|b".toList :: [[]])) := by decide +kernel
  have hcomment : Insignificant ([] ++ '#' :: " a".toList) := .comment (List.forall_mem_nil _) _
  have hskipped : ∀ other ∈ ["# a".toList] ++ [[]], Insignificant other ∧ '\n' ∉ other :=
    List.forall_mem_cons.2 ⟨⟨hcomment, by decide⟩,
      List.forall_mem_singleton.2 ⟨.blank (List.forall_mem_nil _), by decide⟩⟩
  have hnone : headerName? "Pattern: a|b".toList = none := by decide +kernel
  rcases load_declaration hline hdetected with ⟨-, hheads, pattern, hfound, hfiles⟩
  have hsame : "a|b".toList = pattern := Except.ok.inj (hpattern.symm.trans hfound)
  have hmistaken : ¬ Mistaken "Pattern: a|b".toList := by
    rw [← hheads]
    exact not_exists.2 (headerName?_eq_none_iff.1 hnone)
  rcases hfiles _ "only.re" _ _ hskipped hread with ⟨loaded, hload, hheeded, -⟩
  rw [hsame]
  exact ⟨hline, hdetected, loaded, hload, hheeded hmistaken⟩

/-- A keyword in capital letters with nothing behind it is a header, and nothing at all comes of the
    file. -/
theorem load_declaration_capitals : isPattern "REGEX:".toList = true ∧
    Heads "REGEX:".toList "REGEX".toList ∧
      (asciiDisk "REGEX:\n".toList).load "only.re" = .ok Loaded.nothing := by
  have hname : headerName? "REGEX:".toList = some "REGEX".toList := by decide +kernel
  exact ⟨by decide +kernel, headerName?_eq_some_iff.1 hname, by decide +kernel⟩

end Disk

end FiniteState
