import FiniteState.Description.Loading

/-!
# Contents with Sections

A content is cut into sections at its header lines. What a header line looks like and where the cuts
are is said here without the functions that look for them: a line heads a section if it is a name
and a colon with blanks after it, and a content is divided if all of its headers begin parts and no
other line does. There is exactly one such division.

The function that divides contents trims the bodies of sections. This makes no difference to what is
read of them, since only lines count that are left when they are trimmed themselves.

## Main definitions

* `Description.Heads`: A line is the header of a section with a name.
* `Description.Part`: A header line and the lines below it.
* `Description.Divided`: Lines are divided into parts at their headers.
* `Description.split`: The parts of lines.

## Theorems

* `Description.headerName?_eq_some_iff`: Headers are found.
* `Description.divided_iff`: There is exactly one division.
* `Description.divide_eq`: Sections are the parts with their bodies trimmed.
* `Description.significantLines_trim`: Blanks at the ends of a content do not matter.
-/

namespace FiniteState

namespace Description

/-- A line is the header of a section: in its first column begins a name, which is an ASCII letter
    with word characters after it and no keyword, and what follows the name is a colon and then only
    spaces and tabs. -/
inductive Heads : List Char → List Char → Prop
  | mk {first : Char} {rest blanks : List Char}
      (hfirst : ('a' ≤ first ∧ first ≤ 'z') ∨ ('A' ≤ first ∧ first ≤ 'Z'))
      (hrest : ∀ c ∈ rest, Text.isWordChar c = true)
      (hkeyword : String.ofList (first :: rest) ∉ keywords)
      (hblanks : ∀ c ∈ blanks, c = ' ' ∨ c = '\t') :
      Heads (first :: (rest ++ ':' :: blanks)) (first :: rest)

theorem isAsciiLetter_eq_true_iff {c : Char} :
    isAsciiLetter c = true ↔ ('a' ≤ c ∧ c ≤ 'z') ∨ ('A' ≤ c ∧ c ≤ 'Z') := by
  simp [isAsciiLetter]

theorem isWordChar_of_isAsciiLetter {c : Char} (h : isAsciiLetter c = true) :
    Text.isWordChar c = true := by
  have hranges : Text.inRanges Text.alphanumericRanges c = true := by
    rw [Text.inRanges_eq_true_iff]
    rcases isAsciiLetter_eq_true_iff.1 h with hsmall | hcapital
    · exact ⟨(0x61, 0x7a), .tail _ (.tail _ (.head _)), hsmall⟩
    · exact ⟨(0x41, 0x5a), .tail _ (.head _), hcapital⟩
  rw [Text.isWordChar, hranges, Bool.or_true]

/-- The name of a header is as long as it can be. -/
theorem takeWhile_name {name : List Char} (h : ∀ c ∈ name, Text.isWordChar c = true)
    (rest : List Char) : (name ++ ':' :: rest).takeWhile Text.isWordChar = name ∧
      (name ++ ':' :: rest).dropWhile Text.isWordChar = ':' :: rest := by
  have hcolon : ¬ Text.isWordChar ':' = true := by decide +kernel
  constructor
  · rw [List.takeWhile_append_of_pos h, List.takeWhile_cons_of_neg hcolon, List.append_nil]
  · rw [List.dropWhile_append_of_pos h, List.dropWhile_cons_of_neg hcolon]

/-- Headers are found, and nothing else is. -/
theorem headerName?_eq_some_iff {line name : List Char} :
    headerName? line = some name ↔ Heads line name := by
  constructor
  · intro h
    unfold headerName? at h
    split at h
    next blanks hcolon =>
      have hline : line.takeWhile Text.isWordChar ++ ':' :: blanks = line := by
        rw [← hcolon, List.takeWhile_append_dropWhile]
      dsimp only at h
      split at h
      next hconditions =>
        obtain rfl := Option.some.inj h
        simp only [Bool.and_eq_true, Bool.not_eq_true', List.all_eq_true, Bool.or_eq_true,
          beq_iff_eq, List.contains_eq_mem, decide_eq_false_iff_not] at hconditions
        rcases hconditions with ⟨⟨hletter, hblanks⟩, hkeyword⟩
        -- The name is what has been taken while there were word characters.
        have hword : ∀ c ∈ line.takeWhile Text.isWordChar, Text.isWordChar c = true :=
          fun c hc => List.all_eq_true.1 List.all_takeWhile c hc
        cases hname : line.takeWhile Text.isWordChar with
        | nil =>
          rw [hname] at hletter
          exact nomatch hletter
        | cons first rest =>
          rw [hname] at hletter hkeyword hword hline
          rw [← hline]
          exact .mk (isAsciiLetter_eq_true_iff.1 hletter)
            (fun c hc => hword c (List.mem_cons_of_mem first hc)) hkeyword hblanks
      next => exact nomatch h
    next => exact nomatch h
  · intro h
    cases h with
    | @mk first rest blanks hfirst hrest hkeyword hblanks =>
      have hletter := isAsciiLetter_eq_true_iff.2 hfirst
      have hword : ∀ c ∈ first :: rest, Text.isWordChar c = true :=
        List.forall_mem_cons.2 ⟨isWordChar_of_isAsciiLetter hletter, hrest⟩
      have hname := takeWhile_name hword blanks
      rw [List.cons_append] at hname
      have hspaces : blanks.all (fun c => c == ' ' || c == '\t') = true := by
        simpa using hblanks
      have hfree : keywords.contains (String.ofList (first :: rest)) = false := by
        simpa only [List.contains_eq_mem, decide_eq_false_iff_not] using hkeyword
      unfold headerName?
      simp only [hname.1, hname.2, List.head?_cons, Option.any_some, hletter, hspaces, hfree]
      rfl

/-- A line heads no section. -/
theorem headerName?_eq_none_iff {line : List Char} :
    headerName? line = none ↔ ∀ name, ¬ Heads line name := by
  simp only [← headerName?_eq_some_iff, Option.eq_none_iff_forall_ne_some, ne_eq]

/-! ### Divisions -/

/-- A header line, the name in it, and the lines below it. -/
structure Part where
  header : List Char
  name : List Char
  body : List (List Char)
deriving DecidableEq

namespace Part

/-- The lines of a part. -/
def lines (part : Part) : List (List Char) :=
  part.header :: part.body

/-- The text below the header. -/
def text (part : Part) : List Char :=
  Text.unlines part.body

end Part

/-- Lines are divided into those above the first header and the parts that headers begin. -/
structure Divided (lines above : List (List Char)) (parts : List Part) : Prop where
  lines_eq : lines = above ++ parts.flatMap Part.lines
  above : ∀ line ∈ above, ∀ name, ¬ Heads line name
  header : ∀ part ∈ parts, Heads part.header part.name
  body : ∀ part ∈ parts, ∀ line ∈ part.body, ∀ name, ¬ Heads line name

/-- The lines above the first header, and the parts. -/
def split : List (List Char) → List (List Char) × List Part
  | [] => ([], [])
  | line :: rest =>
    match headerName? line with
    | some name => ([], ⟨line, name, (split rest).1⟩ :: (split rest).2)
    | none => (line :: (split rest).1, (split rest).2)

variable {lines above : List (List Char)} {parts : List Part}

theorem divided_split (lines : List (List Char)) :
    Divided lines (split lines).1 (split lines).2 := by
  induction lines with
  | nil => exact ⟨rfl, by simp [split], by simp [split], by simp [split]⟩
  | cons line rest ih =>
    rw [split]
    split
    -- A header closes the part below it, and what the rest has above its first header becomes the
    -- body.
    next name hname =>
      refine ⟨?_, List.forall_mem_nil _, List.forall_mem_cons.2 ⟨headerName?_eq_some_iff.1 hname,
        ih.header⟩, List.forall_mem_cons.2 ⟨ih.above, ih.body⟩⟩
      rw [List.nil_append, List.flatMap_cons, Part.lines, List.cons_append, ← ih.lines_eq]
    next hnone =>
      refine ⟨?_, List.forall_mem_cons.2 ⟨headerName?_eq_none_iff.1 hnone, ih.above⟩, ih.header,
        ih.body⟩
      rw [List.cons_append, ← ih.lines_eq]

/-- There is exactly one division. -/
theorem divided_iff : Divided lines above parts ↔ split lines = (above, parts) := by
  constructor
  · intro h
    -- A first line that is a header begins a part, whose body is what stands above the other parts
    -- in the division of the lines that remain.
    induction lines generalizing above parts with
    | nil =>
      have hempty := List.append_eq_nil_iff.1 h.lines_eq.symm
      cases parts with
      | nil => rw [hempty.1, split]
      | cons part parts => exact nomatch hempty.2
    | cons line rest ih =>
      cases above with
      | cons first above =>
        obtain ⟨rfl, hrest⟩ := List.cons.inj h.lines_eq
        rcases List.forall_mem_cons.1 h.above with ⟨hline, habove⟩
        rw [split, headerName?_eq_none_iff.2 hline, ih ⟨hrest, habove, h.header, h.body⟩]
      | nil =>
        cases parts with
        | nil => exact nomatch h.lines_eq
        | cons part parts =>
          obtain ⟨rfl, hrest⟩ := List.cons.inj h.lines_eq
          rcases List.forall_mem_cons.1 h.header with ⟨hheader, hheaders⟩
          rcases List.forall_mem_cons.1 h.body with ⟨hbody, hbodies⟩
          rw [split, headerName?_eq_some_iff.2 hheader, ih ⟨hrest, hbody, hheaders, hbodies⟩]
  · intro h
    have hsplit := divided_split lines
    rwa [h] at hsplit

/-- A division has a part if there is a header. -/
theorem Divided.parts_ne_nil (h : Divided lines above parts)
    (hheader : ∃ line ∈ lines, ∃ name, Heads line name) : parts ≠ [] := by
  rintro rfl
  rcases hheader with ⟨line, hline, name, hname⟩
  have heq : lines = above := by simpa using h.lines_eq
  exact h.above line (heq ▸ hline) name hname

/-- A part as a section, its body trimmed. -/
def Part.toSection (part : Part) : Section :=
  ⟨part.name, Text.trim part.text⟩

/-- Sections are the parts with their bodies trimmed. -/
theorem divide_eq (lines : List (List Char)) :
    divide lines = ((split lines).1, (split lines).2.map Part.toSection) := by
  induction lines with
  | nil => rfl
  | cons line rest ih =>
    rw [divide, split, ih]
    cases headerName? line <;> rfl

theorem Divided.sections_eq {content : List Char} (h : Divided (Text.lines content) above parts) :
    sections content = parts.map Part.toSection := by
  rw [sections, divide_eq, divided_iff.1 h]

/-! ### Trimmed contents -/

theorem isBlank_of_mem_lines {blanks line : List Char} (h : ∀ c ∈ blanks, Text.isBlank c = true)
    (hline : line ∈ Text.lines blanks) : ∀ c ∈ line, Text.isBlank c = true :=
  fun c hc => h c (Text.mem_of_mem_cutAt hline hc)

/-- Lines that are blank do not count. -/
theorem filter_blank_lines {lines : List (List Char)}
    (h : ∀ line ∈ lines, ∀ c ∈ line, Text.isBlank c = true) :
    (lines.map Text.trim).filter (fun line => line ≠ [] ∧ line.head? ≠ some '#') = [] := by
  rw [List.filter_eq_nil_iff]
  intro core hcore
  rcases List.mem_map.1 hcore with ⟨line, hline, rfl⟩
  simp [Text.trim_eq_nil_iff.2 (h line hline)]

theorem significantLines_blanks_append {blanks : List Char}
    (h : ∀ c ∈ blanks, Text.isBlank c = true) (text : List Char) :
    significantLines (blanks ++ text) = significantLines text := by
  rcases Text.exists_lines_append blanks text with ⟨front, last, first, rest, hblanks, htext, hboth⟩
  have hlines : ∀ line ∈ front ++ [last], ∀ c ∈ line, Text.isBlank c = true :=
    fun line hline => isBlank_of_mem_lines h (hblanks ▸ hline)
  -- The lines of the blanks are insignificant, and their last one only indents the first line of
  -- the text.
  have hfront := filter_blank_lines fun line hline => hlines line (List.mem_append_left _ hline)
  have hlast := hlines last (List.mem_append_right _ List.mem_cons_self)
  rw [significantLines, significantLines, hboth, htext, List.map_append, List.filter_append, hfront,
    List.nil_append, List.map_cons, List.map_cons, Text.trim_blanks_append hlast]

theorem significantLines_append_blanks {blanks : List Char}
    (h : ∀ c ∈ blanks, Text.isBlank c = true) (text : List Char) :
    significantLines (text ++ blanks) = significantLines text := by
  rcases Text.exists_lines_append text blanks with ⟨front, last, first, rest, htext, hblanks, hboth⟩
  have hlines : ∀ line ∈ first :: rest, ∀ c ∈ line, Text.isBlank c = true :=
    fun line hline => isBlank_of_mem_lines h (hblanks ▸ hline)
  -- The first line of the blanks pads the last line of the text.
  rcases List.forall_mem_cons.1 hlines with ⟨hfirst, hrest⟩
  rw [significantLines, significantLines, hboth, htext]
  simp only [List.map_append, List.map_cons, List.filter_append, List.filter_cons,
    Text.trim_append_blanks hfirst, filter_blank_lines hrest, List.map_nil, List.filter_nil]

/-- Blanks at the ends of a content do not matter. -/
theorem significantLines_trim (content : List Char) :
    significantLines (Text.trim content) = significantLines content := by
  rcases Text.exists_trim content with ⟨before, after, hbefore, hafter, happend⟩
  rw [← significantLines_append_blanks hafter, ← significantLines_blanks_append hbefore, happend]

theorem read_trim (content : List Char) : read (Text.trim content) = read content := by
  rw [read, read, readWithin, readWithin, significantLines_trim]

theorem isPattern_trim (content : List Char) :
    isPattern (Text.trim content) = isPattern content := by
  rw [isPattern, isPattern, significantLines_trim]

theorem patternOf_trim (content : List Char) :
    patternOf (Text.trim content) = patternOf content := by
  rw [patternOf, patternOf, significantLines_trim]

end Description

end FiniteState
