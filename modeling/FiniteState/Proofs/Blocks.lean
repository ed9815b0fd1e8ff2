import FiniteState.Proofs.Loads
import FiniteState.Proofs.Pieces
import FiniteState.Proofs.Writing

/-!
# Contents without Sections

A content without headers that is no pattern is a number of automata with separators between them.
The separator is the text `---`, and the content is cut at every occurrence of it, before any lines
are looked at. Where the separator stands on lines of its own, and nowhere else, this is the same as
cutting the content between lines: all that differs is the blanks around the separators, and blanks
at the ends of a description do not matter. But an occurrence inside a longer line cuts too, be it
in a name or in a comment, and both parts of the line are read.

So a content is first fenced off into blocks of lines, and then each block is cut by itself. That
this comes to the same as cutting the whole content is due to the line feeds, which are no part of
the separator: none of its occurrences lies across the border of a line.

The blocks that are not blank are numbered from 0, those that cannot be read among them.

## Main definitions

* `Description.Separates`: A line holds the separator and nothing else.
* `Description.Fenced`: Lines are fenced off into blocks.
* `Description.solid`: What counts of blocks.
* `Loaded.Numbers`: What blocks provide under the numbers that they get.
* `Loaded.Blockwise`: What is loaded comes from blocks.

## Theorems

* `Description.fenced_iff`: Lines are fenced off in exactly one way.
* `Description.Separates.solid_cutAt`: What is above a line that separates is cut by itself.
* `Description.Fenced.solid_cutAt`: Cutting a content is cutting its blocks.
* `Loaded.Blockwise.congr`: Blanks around blocks make no difference, and blank blocks neither.
* `Loaded.Numbers.lookup_iff`: Which block a name with a number belongs to.
* `Loaded.foldl_addAutomaton`: The loader numbers the blocks.
* `Disk.load_unnamed`: What becomes of a file without sections.
-/

namespace FiniteState

namespace Description

/-- The text that separates automata. -/
def separator : List Char :=
  ['-', '-', '-']

/-- A line separates automata if there is nothing but the separator on it, with blanks around. -/
def Separates (line : List Char) : Prop :=
  Padded separator line

instance (line : List Char) : Decidable (Separates line) :=
  inferInstanceAs (Decidable (Padded separator line))

/-- Lines are fenced off into blocks: between each two blocks is one line that separates them, and
    there is none in a block. -/
inductive Fenced : List (List Char) → List (List (List Char)) → Prop
  | last {lines : List (List Char)} (h : ∀ line ∈ lines, ¬ Separates line) : Fenced lines [lines]
  | next {block rest : List (List Char)} {line : List Char} {blocks : List (List (List Char))}
      (h : ∀ other ∈ block, ¬ Separates other) (hline : Separates line)
      (hrest : Fenced rest blocks) : Fenced (block ++ line :: rest) (block :: blocks)

section Fences

variable {lines : List (List Char)} {blocks : List (List (List Char))} {line : List Char}

theorem Fenced.cons (h : Fenced lines blocks) (hline : ¬ Separates line) :
    Fenced (line :: lines) (blocks.modifyHead (line :: ·)) := by
  cases h with
  | last h => exact .last (List.forall_mem_cons.2 ⟨hline, h⟩)
  | next h hfence hrest =>
    rw [List.modifyHead_cons, ← List.cons_append]
    exact .next (List.forall_mem_cons.2 ⟨hline, h⟩) hfence hrest

/-- Lines are fenced off in exactly one way. -/
theorem fenced_iff :
    Fenced lines blocks ↔ lines.splitOnP (fun line => Separates line) = blocks := by
  constructor
  · intro h
    induction h with
    | last h => exact List.splitOnP_eq_singleton fun line hline => decide_eq_false (h line hline)
    | @next block rest line blocks h hline _ ih =>
      have hblock : block.splitOnP (fun line => Separates line) = [block] :=
        List.splitOnP_eq_singleton fun other hother => decide_eq_false (h other hother)
      have hfence : (fun line => decide (Separates line)) line = true := decide_eq_true hline
      rw [List.splitOnP_append_cons block rest hfence, hblock, ih, List.singleton_append]
  -- Conversely, every line either ends a piece or belongs to the one that is next.
  · rintro rfl
    induction lines with
    | nil => exact .last (List.forall_mem_nil _)
    | cons line lines ih =>
      rw [List.splitOnP_cons_eq_if_modifyHead]
      by_cases hline : Separates line
      · rw [if_pos (decide_eq_true hline)]
        exact Fenced.next (List.forall_mem_nil _) hline ih
      · rw [if_neg (by simpa using hline)]
        exact ih.cons hline

/-- The lines of blocks are lines of the content that do not separate. -/
theorem Fenced.of_mem (h : Fenced lines blocks) :
    ∀ block ∈ blocks, ∀ line ∈ block, line ∈ lines ∧ ¬ Separates line := by
  induction h with
  | last h => exact List.forall_mem_singleton.2 fun line hline => ⟨hline, h line hline⟩
  | next h _ _ ih =>
    refine List.forall_mem_cons.2 ⟨fun line hline => ⟨by simp [hline], h line hline⟩, ?_⟩
    intro block hblock line hline
    rcases ih block hblock line hline with ⟨hmem, hnot⟩
    exact ⟨by simp [hmem], hnot⟩

end Fences

/-! ### Blocks without their blanks -/

/-- What counts of blocks: those that are not blank, without the blanks at their ends. -/
def solid (blocks : List (List Char)) : List (List Char) :=
  (blocks.map Text.trim).filter fun block => block ≠ []

section Solid

variable {blocks others : List (List Char)} {block : List Char}

theorem solid_append (blocks others : List (List Char)) :
    solid (blocks ++ others) = solid blocks ++ solid others := by
  rw [solid, List.map_append, List.filter_append, ← solid, ← solid]

theorem solid_cons_of_blank (h : ∀ c ∈ block, Text.isBlank c = true) :
    solid (block :: blocks) = solid blocks := by
  simp [solid, Text.trim_eq_nil_iff.2 h]

theorem solid_cons_of_not_blank (h : ¬ ∀ c ∈ block, Text.isBlank c = true) :
    solid (block :: blocks) = Text.trim block :: solid blocks := by
  simp [solid, mt Text.trim_eq_nil_iff.1 h]

/-- Blanks at the end of a block do not count. -/
theorem solid_append_blanks {blanks : List Char} (h : ∀ c ∈ blanks, Text.isBlank c = true) :
    solid ((block ++ blanks) :: blocks) = solid (block :: blocks) := by
  rw [solid, solid, List.map_cons, List.map_cons, Text.trim_append_blanks h]

/-- Blanks at the beginning of a block do not count. -/
theorem solid_blanks_append {blanks : List Char} (h : ∀ c ∈ blanks, Text.isBlank c = true) :
    solid ((blanks ++ block) :: blocks) = solid (block :: blocks) := by
  rw [solid, solid, List.map_cons, List.map_cons, Text.trim_blanks_append h]

end Solid

/-! ### Cutting between lines -/

/-- Lines with a line feed in front of each. -/
def below (lines : List (List Char)) : List Char :=
  lines.flatMap ('\n' :: ·)

theorem separator_ne_nil : separator ≠ [] :=
  List.cons_ne_nil _ _

section Cutting

variable {lines : List (List Char)} {blocks : List (List (List Char))} {text blanks : List Char}
  {line : List Char}

/-- Between the lines there is no part of the separator. -/
theorem not_mem_separator_of_head? {c : Char} (hc : c ∈ (below lines).head?) : c ∉ separator := by
  cases lines with
  | nil => exact nomatch hc
  | cons line lines =>
    obtain rfl := Option.some.inj hc
    decide

/-- The separator does not begin among blanks. -/
theorem not_prefix_of_blanks (hne : blanks ≠ []) (h : ∀ c ∈ blanks, Text.isBlank c = true)
    (text : List Char) : ¬ separator <+: blanks ++ text := by
  rcases List.exists_cons_of_ne_nil hne with ⟨c, rest, rfl⟩
  rw [List.cons_append, separator, List.cons_prefix_cons]
  rintro ⟨rfl, -⟩
  exact absurd (h _ List.mem_cons_self) (by decide)

theorem not_infix_of_blanks (h : ∀ c ∈ blanks, Text.isBlank c = true) :
    ¬ separator <:+: blanks := by
  intro hinside
  have hhead := h '-' (hinside.subset List.mem_cons_self)
  exact absurd hhead (by decide)

theorem isBlank_feed : ∀ c ∈ ['\n'], Text.isBlank c = true :=
  List.forall_mem_singleton.2 (by decide)

theorem infix_feed_iff : separator <:+: '\n' :: text ↔ separator <:+: text := by
  rw [List.infix_cons_iff]
  exact or_iff_right (not_prefix_of_blanks (List.cons_ne_nil _ _) isBlank_feed text)

/-- A line feed in front of a text makes no difference to what counts of its pieces. -/
theorem solid_cutAt_feed (text : List Char) :
    solid (Text.cutAt separator ('\n' :: text)) = solid (Text.cutAt separator text) := by
  have hbegins : ¬ separator <+: '\n' :: text :=
    not_prefix_of_blanks (List.cons_ne_nil _ _) isBlank_feed text
  have hcuts := (Text.cuts_cutAt separator_ne_nil text).cons hbegins
  rw [(Text.cuts_iff separator_ne_nil).1 hcuts]
  rcases List.exists_cons_of_ne_nil (Text.cutAt_ne_nil separator text) with ⟨first, rest, hcut⟩
  rw [hcut, Text.consFirst]
  exact solid_blanks_append isBlank_feed

theorem solid_cutAt_below (lines : List (List Char)) :
    solid (Text.cutAt separator (below lines)) =
      solid (Text.cutAt separator (Text.unlines lines)) := by
  cases lines with
  | nil => rfl
  | cons line lines =>
    rw [below, ← Text.cons_unlines (List.cons_ne_nil line lines), solid_cutAt_feed]

/-- The separator is found between the blanks on its line. -/
theorem cuts_of_blanks {before after first : List Char} {under back : List (List Char)}
    (hbefore : ∀ c ∈ before, Text.isBlank c = true) (hafter : ∀ c ∈ after, Text.isBlank c = true)
    (hunder : Text.Cuts separator (below under) (first :: back)) :
    Text.Cuts separator (before ++ (separator ++ (after ++ below under)))
      (before :: (after ++ first) :: back) := by
  have hrest := hunder.prepend (fun _ => not_mem_separator_of_head?) (not_infix_of_blanks hafter)
  refine .next (fun front rest hpiece hne => ?_) hrest
  -- What stands in front of the separator are blanks, so it begins nowhere else.
  have hblanks : ∀ c ∈ rest, Text.isBlank c = true :=
    fun c hc => hbefore c (hpiece ▸ List.mem_append_right front hc)
  exact not_prefix_of_blanks hne hblanks separator

/-- A line that separates ends the last piece above it and begins the first one below. -/
theorem Separates.solid_cutAt (h : Separates line) (above under : List (List Char)) :
    solid (Text.cutAt separator (below (above ++ line :: under))) =
      solid (Text.cutAt separator (below above)) ++ solid (Text.cutAt separator (below under)) := by
  have habove := Text.cuts_cutAt separator_ne_nil (below above)
  have hunder := Text.cuts_cutAt separator_ne_nil (below under)
  rcases List.eq_nil_or_concat' (Text.cutAt separator (below above)) with
    hnil | ⟨front, last, hfront⟩
  · exact absurd hnil (Text.cutAt_ne_nil _ _)
  rcases List.exists_cons_of_ne_nil (Text.cutAt_ne_nil separator (below under)) with
    ⟨first, back, hback⟩
  rw [hfront] at habove ⊢
  rw [hback] at hunder ⊢
  -- The line is blank on both sides of its separator. The blanks end the last piece above and begin
  -- the first one below, where they do not count.
  unfold Separates at h
  cases h with
  | @mk before _ after hbefore hafter =>
    have hblanks : ∀ c ∈ '\n' :: before, Text.isBlank c = true :=
      List.forall_mem_cons.2 ⟨by decide, hbefore⟩
    have htext : below (above ++ (before ++ (separator ++ after)) :: under) =
        below above ++ ('\n' :: before ++ (separator ++ (after ++ below under))) := by
      simp [below]
    -- The line feed keeps the separator from beginning in the lines above.
    have hfeed : ∀ c ∈ ('\n' :: before ++ (separator ++ (after ++ below under))).head?,
        c ∉ separator := by
      intro c hc
      obtain rfl := Option.some.inj hc
      decide
    have hcuts := Text.Cuts.append hfeed (cuts_of_blanks hblanks hafter hunder) habove
    rw [htext, (Text.cuts_iff separator_ne_nil).1 hcuts]
    calc solid (front ++ (last ++ '\n' :: before) :: (after ++ first) :: back)
      _ = solid front ++ solid (last :: (after ++ first) :: back) := by
          rw [solid_append, solid_append_blanks hblanks]
      _ = solid (front ++ [last]) ++ solid ((after ++ first) :: back) := by
          rw [← solid_append, ← solid_append, List.append_assoc, List.singleton_append]
      _ = solid (front ++ [last]) ++ solid (first :: back) := by rw [solid_blanks_append hafter]

/-- To cut a content is to cut its blocks, except for the blanks around the separators. -/
theorem Fenced.solid_cutAt (h : Fenced lines blocks) :
    solid (Text.cutAt separator (Text.unlines lines)) =
      solid (blocks.flatMap fun block => Text.cutAt separator (Text.unlines block)) := by
  induction h with
  | last h => rw [List.flatMap_singleton]
  | @next block rest line blocks h hline _ ih =>
    rw [← solid_cutAt_below, hline.solid_cutAt, solid_cutAt_below, solid_cutAt_below, ih,
      List.flatMap_cons, solid_append]

/-- If the separator occurs in no line, it does not occur in the lines put together. -/
theorem not_infix_unlines (h : ∀ line ∈ lines, ¬ separator <:+: line) :
    ¬ separator <:+: Text.unlines lines := by
  -- With a line feed before each line, the separator would have to lie within one of them.
  have hbelow : ¬ separator <:+: below lines := by
    induction lines with
    | nil => exact not_infix_of_blanks (List.forall_mem_nil _)
    | cons line lines ih =>
      rcases List.forall_mem_cons.1 h with ⟨hline, hlines⟩
      have hhead : ∀ c ∈ (below lines).head?, c ∉ separator := fun _ => not_mem_separator_of_head?
      rw [below, List.flatMap_cons, ← below, Text.infix_append_iff hhead, infix_feed_iff]
      exact not_or.2 ⟨hline, ih hlines⟩
  cases lines with
  | nil => exact hbelow
  | cons line lines =>
    rwa [below, ← Text.cons_unlines (List.cons_ne_nil line lines), infix_feed_iff] at hbelow

/-- Blocks are not cut any further if the separator stands only on lines that separate. -/
theorem Fenced.flatMap_cutAt (h : Fenced lines blocks)
    (honly : ∀ line ∈ lines, separator <:+: line → Separates line) :
    (blocks.flatMap fun block => Text.cutAt separator (Text.unlines block)) =
      blocks.map Text.unlines := by
  have hwhole : ∀ block ∈ blocks, Text.cutAt separator (Text.unlines block) =
      [Text.unlines block] := by
    intro block hblock
    refine Text.cutAt_eq_singleton (not_infix_unlines fun line hline hinside => ?_)
    rcases h.of_mem block hblock line hline with ⟨hmem, hnot⟩
    exact hnot (honly line hmem hinside)
  rw [List.flatMap_congr hwhole, List.map_eq_flatMap]

end Cutting

end Description

namespace Loaded

open Description

/-! ### Numbered blocks -/

/-- What blocks provide in order, where the next one that is not blank gets a number: automata under
    their names, and a warning in place of each that cannot be read. -/
inductive Numbers (base : List Char) :
    Nat → List (List Char) → List (String × Automaton) → List String → Prop
  | nil {place : Nat} : Numbers base place [] [] []
  | blank {place : Nat} {block : List Char} {blocks : List (List Char)}
      {automata : List (String × Automaton)} {warnings : List String}
      (hblank : ∀ c ∈ block, Text.isBlank c = true)
      (h : Numbers base place blocks automata warnings) :
      Numbers base place (block :: blocks) automata warnings
  | automaton {place : Nat} {block : List Char} {blocks : List (List Char)}
      {automata : List (String × Automaton)} {warnings : List String} {described : Description}
      (hmore : ¬ ∀ c ∈ block, Text.isBlank c = true) (hread : read block = .ok described)
      (h : Numbers base (place + 1) blocks automata warnings) :
      Numbers base place (block :: blocks)
        ((blockName base place, described.automaton) :: automata) warnings
  | warning {place : Nat} {block : List Char} {blocks : List (List Char)}
      {automata : List (String × Automaton)} {warnings : List String} {fault : Fault}
      (hmore : ¬ ∀ c ∈ block, Text.isBlank c = true) (hread : read block = .error fault)
      (h : Numbers base (place + 1) blocks automata warnings) :
      Numbers base place (block :: blocks) automata
        (("Warning: Failed to load automaton '" ++ blockName base place ++ "': " ++ fault.message)
          :: warnings)

/-- What is loaded comes from blocks, numbered from 0. -/
structure Blockwise (base : List Char) (blocks : List (List Char)) (loaded : Loaded) : Prop where
  regexes : loaded.regexes = ∅
  numbers : Numbers base 0 blocks loaded.automata.entries loaded.warnings
  /-- No name is given twice. -/
  nodup : loaded.automata.names.Nodup
  /-- What is found under a name is the automaton of the block with that number. -/
  get?_iff : ∀ k A, loaded.automata.get? (blockName base k) = some A ↔
    ∃ block ∈ (solid blocks)[k]?, ∃ described, read block = .ok described ∧ described.automaton = A

section Numbers

variable {base : List Char} {place : Nat} {blocks others : List (List Char)}
  {automata : List (String × Automaton)} {warnings : List String} {loaded : Loaded}

theorem blockName_injective (base : List Char) {i j : Nat}
    (h : blockName base i = blockName base j) : i = j := by
  -- The first name has no number, and no other number is written as nothing.
  have hne : ∀ n : Nat, Nat.repr n ≠ "" := fun n hempty => by
    have hdigits : (Nat.repr n).toList = [] := by rw [hempty]; rfl
    rw [Nat.toList_repr] at hdigits
    exact Nat.toDigits_ne_nil hdigits
  unfold blockName at h
  have hsuffix := String.append_right_inj _ |>.1 h
  by_cases hi : i = 0 <;> by_cases hj : j = 0
  · rw [hi, hj]
  · rw [if_pos hi, if_neg hj] at hsuffix
    exact absurd hsuffix.symm (hne j)
  · rw [if_neg hi, if_pos hj] at hsuffix
    exact absurd hsuffix (hne i)
  · rw [if_neg hi, if_neg hj] at hsuffix
    exact toDigits_injective (by rw [← Nat.toList_repr, ← Nat.toList_repr, hsuffix])

/-- All blocks provide something. -/
theorem exists_numbers (base : List Char) (place : Nat) (blocks : List (List Char)) :
    ∃ automata warnings, Numbers base place blocks automata warnings := by
  induction blocks generalizing place with
  | nil => exact ⟨[], [], .nil⟩
  | cons block blocks ih =>
    by_cases hblank : ∀ c ∈ block, Text.isBlank c = true
    -- A blank piece takes no number.
    · rcases ih place with ⟨automata, warnings, h⟩
      exact ⟨automata, warnings, .blank hblank h⟩
    · rcases ih (place + 1) with ⟨automata, warnings, h⟩
      cases hread : read block with
      | ok described => exact ⟨_, _, .automaton hblank hread h⟩
      | error fault => exact ⟨_, _, .warning hblank hread h⟩

/-- The names that are given have numbers from the next one on. -/
theorem Numbers.exists_name (h : Numbers base place blocks automata warnings) :
    ∀ entry ∈ automata, ∃ i, place ≤ i ∧ entry.1 = blockName base i := by
  induction h with
  | nil => exact List.forall_mem_nil _
  | blank _ _ ih => exact ih
  | automaton _ _ _ ih =>
    refine List.forall_mem_cons.2 ⟨⟨_, le_rfl, rfl⟩, fun entry hentry => ?_⟩
    rcases ih entry hentry with ⟨i, hi, hname⟩
    exact ⟨i, Nat.le_of_succ_le hi, hname⟩
  -- A block that cannot be read takes a number all the same.
  | warning _ _ _ ih =>
    intro entry hentry
    rcases ih entry hentry with ⟨i, hi, hname⟩
    exact ⟨i, Nat.le_of_succ_le hi, hname⟩

theorem Numbers.nodup (h : Numbers base place blocks automata warnings) :
    (automata.map Prod.fst).Nodup := by
  induction h with
  | nil => exact List.nodup_nil
  | blank _ _ ih => exact ih
  | automaton _ _ h ih =>
    rw [List.map_cons]
    -- All names that follow have greater numbers.
    refine List.nodup_cons.2 ⟨fun hmem => ?_, ih⟩
    rcases List.mem_map.1 hmem with ⟨entry, hentry, hsame⟩
    rcases h.exists_name entry hentry with ⟨i, hi, hname⟩
    have hplace := blockName_injective base (hname.symm.trans hsame)
    exact absurd hi (by omega)
  | warning _ _ _ ih => exact ih

/-- Every block that counts provides exactly one thing. -/
theorem Numbers.length_solid (h : Numbers base place blocks automata warnings) :
    (solid blocks).length = automata.length + warnings.length := by
  induction h with
  | nil => rfl
  | blank hblank _ ih => rw [solid_cons_of_blank hblank, ih]
  | automaton hmore _ _ ih =>
    rw [solid_cons_of_not_blank hmore, List.length_cons, List.length_cons, ih]
    omega
  | warning hmore _ _ ih =>
    rw [solid_cons_of_not_blank hmore, List.length_cons, List.length_cons, ih]
    omega

/-- The block with a number provides the automaton under the name with that number. -/
theorem Numbers.lookup_iff (h : Numbers base place blocks automata warnings) (k : Nat)
    (A : Automaton) : automata.lookup (blockName base (place + k)) = some A ↔
      ∃ block ∈ (solid blocks)[k]?, ∃ described, read block = .ok described ∧
        described.automaton = A := by
  induction h generalizing k with
  | nil => simp [solid]
  | blank hblank _ ih => rw [solid_cons_of_blank hblank, ih]
  | @automaton place block blocks automata warnings described hmore hread _ ih =>
    rw [solid_cons_of_not_blank hmore, Registry.lookup_cons]
    cases k with
    | zero => simp [read_trim, hread]
    | succ k =>
      have hne : blockName base (place + (k + 1)) ≠ blockName base place :=
        fun hsame => absurd (blockName_injective base hsame) (by omega)
      rw [if_neg hne, List.getElem?_cons_succ, ← ih, Nat.add_right_comm, Nat.add_assoc]
  | @warning place block blocks automata warnings fault hmore hread h ih =>
    rw [solid_cons_of_not_blank hmore]
    cases k with
    | zero =>
      -- The number is that of the block that cannot be read, and names have greater ones.
      have hnone : automata.lookup (blockName base place) = none := by
        rw [List.lookup_eq_none_iff]
        intro entry hentry
        rcases h.exists_name entry hentry with ⟨i, hi, hname⟩
        rw [bne_iff_ne, hname]
        exact fun hsame => absurd (blockName_injective base hsame) (by omega)
      rw [Nat.add_zero, hnone]
      simp [read_trim, hread]
    | succ k => rw [List.getElem?_cons_succ, ← ih, Nat.add_right_comm, Nat.add_assoc]

theorem not_blank_trim {block : List Char} (h : ¬ ∀ c ∈ block, Text.isBlank c = true) :
    ¬ ∀ c ∈ Text.trim block, Text.isBlank c = true := by
  have hends := Text.isBlank_ends_trim block
  rw [← Text.trim_eq_nil_iff] at h ⊢
  rwa [Text.trim_eq_self hends.1 hends.2]

theorem Numbers.solid (h : Numbers base place blocks automata warnings) :
    Numbers base place (Description.solid blocks) automata warnings := by
  induction h with
  | nil => exact .nil
  | blank hblank _ ih => rwa [solid_cons_of_blank hblank]
  | automaton hmore hread _ ih =>
    rw [solid_cons_of_not_blank hmore]
    exact .automaton (not_blank_trim hmore) (by rw [read_trim, hread]) ih
  | warning hmore hread _ ih =>
    rw [solid_cons_of_not_blank hmore]
    exact .warning (not_blank_trim hmore) (by rw [read_trim, hread]) ih

theorem Numbers.of_solid (h : Numbers base place (Description.solid blocks) automata warnings) :
    Numbers base place blocks automata warnings := by
  induction blocks generalizing place automata warnings with
  | nil => exact h
  | cons block blocks ih =>
    by_cases hblank : ∀ c ∈ block, Text.isBlank c = true
    · rw [solid_cons_of_blank hblank] at h
      exact .blank hblank (ih h)
    · rw [solid_cons_of_not_blank hblank] at h
      -- A piece that is not blank is read as what is left of it without the blanks around.
      cases h with
      | blank hblank' _ => exact absurd hblank' (not_blank_trim hblank)
      | automaton _ hread h => exact .automaton hblank (by rw [← read_trim, hread]) (ih h)
      | warning _ hread h => exact .warning hblank (by rw [← read_trim, hread]) (ih h)

/-- Blanks around blocks make no difference, and blank blocks neither. -/
theorem Blockwise.congr (h : Blockwise base blocks loaded) (hsolid : solid blocks = solid others) :
    Blockwise base others loaded := by
  have hnumbers := h.numbers.solid
  rw [hsolid] at hnumbers
  exact ⟨h.regexes, hnumbers.of_solid, h.nodup, hsolid ▸ h.get?_iff⟩

/-- The loader numbers the blocks. Names that were given before have smaller numbers, so none of
    them is given again. -/
theorem foldl_addAutomaton (h : Numbers base place blocks automata warnings)
    (hbefore : ∀ name ∈ loaded.automata.names, ∃ i < place, name = blockName base i) :
    ((blocks.filter fun block => Text.trim block ≠ []).zipIdx place).foldl
        (fun loaded entry => loaded.addAutomaton (blockName base entry.2) entry.1) loaded =
      { loaded with
        automata := ⟨loaded.automata.entries ++ automata⟩
        warnings := loaded.warnings ++ warnings } := by
  induction h generalizing loaded with
  | nil => simp
  | blank hblank _ ih =>
    rw [List.filter_cons_of_neg (by simpa using Text.trim_eq_nil_iff.2 hblank), ih hbefore]
  | @automaton place block blocks automata warnings described hmore hread _ ih =>
    -- All names given so far have smaller numbers, so this one comes last in the registry.
    have hnew : blockName base place ∉ loaded.automata.entries.map Prod.fst := by
      intro hmem
      rcases hbefore _ hmem with ⟨i, hi, hname⟩
      exact absurd (blockName_injective base hname) (by omega)
    have hadd : loaded.addAutomaton (blockName base place) block =
        { loaded with
          automata :=
            ⟨loaded.automata.entries ++ [(blockName base place, described.automaton)]⟩ } := by
      rw [addAutomaton, hread, ← Registry.insertEntry_of_not_mem hnew]
      rfl
    rw [List.filter_cons_of_pos (by simpa using mt Text.trim_eq_nil_iff.1 hmore),
      List.zipIdx_cons, List.foldl_cons, hadd, ih]
    · simp
    · intro name hname
      rw [Registry.names, List.map_append, List.mem_append] at hname
      rcases hname with hname | hname
      · rcases hbefore name hname with ⟨i, hi, rfl⟩
        exact ⟨i, Nat.lt_succ_of_lt hi, rfl⟩
      · exact ⟨place, Nat.lt_succ_self place, List.mem_singleton.1 hname⟩
  -- Only a warning is added, but the number is used up.
  | @warning place block blocks automata warnings fault hmore hread _ ih =>
    have hadd : loaded.addAutomaton (blockName base place) block =
        { loaded with
          warnings := loaded.warnings ++ ["Warning: Failed to load automaton '" ++
            blockName base place ++ "': " ++ fault.message] } := by
      rw [addAutomaton, hread]
      rfl
    rw [List.filter_cons_of_pos (by simpa using mt Text.trim_eq_nil_iff.1 hmore),
      List.zipIdx_cons, List.foldl_cons, hadd, ih]
    · simp
    · intro name hname
      rcases hbefore name hname with ⟨i, hi, rfl⟩
      exact ⟨i, Nat.lt_succ_of_lt hi, rfl⟩

/-- A content without headers that is no pattern is loaded piece by piece. -/
theorem exists_blockwise {content : List Char}
    (hheaders : ∀ line ∈ Text.lines content, ∀ name, ¬ Heads line name)
    (hother : isPattern content = false) (path : List Char) :
    Blockwise (baseName path) (Text.cutAt separator content) (ofContent path content) := by
  have hdivided : Divided (Text.lines content) (Text.lines content) [] :=
    ⟨by simp, hheaders, List.forall_mem_nil _, List.forall_mem_nil _⟩
  rcases exists_numbers (baseName path) 0 (Text.cutAt separator content) with
    ⟨automata, warnings, h⟩
  have hnames : ∀ name ∈ nothing.automata.names, ∃ i < 0, name = blockName (baseName path) i :=
    List.forall_mem_nil _
  have hloaded : ofContent path content = ⟨⟨automata⟩, ∅, warnings⟩ := by
    unfold ofContent ofContentBy
    rw [hdivided.sections_eq]
    dsimp only [List.map_nil]
    rw [if_neg (Bool.eq_false_iff.1 hother)]
    exact foldl_addAutomaton h hnames
  rw [hloaded]
  refine ⟨rfl, h, h.nodup, fun k A => ?_⟩
  rw [Registry.get?, ← h.lookup_iff, Nat.zero_add]

end Numbers

end Loaded

namespace Disk

open Description Loaded

/-- A file without headers that is no pattern is loaded piece by piece, where the pieces are what
    stands between the occurrences of the separator, wherever they are. This is the same as cutting
    each of its blocks by itself; and if the separator stands on no other lines than those that
    separate blocks, the blocks are what is loaded. -/
theorem load_unnamed {disk : Disk} {path : String} {content : List Char}
    (hread : disk.readText path = .ok content)
    (hheaders : ∀ line ∈ Text.lines content, ∀ name, ¬ Heads line name)
    (hother : isPattern content = false) :
    ∃ pieces blocks loaded, Text.Cuts separator content pieces ∧
      Fenced (Text.lines content) blocks ∧ disk.load path = .ok loaded ∧
      Blockwise (baseName path.toList) pieces loaded ∧
      Blockwise (baseName path.toList)
        (blocks.flatMap fun block => Text.cutAt separator (Text.unlines block)) loaded ∧
      ((∀ line ∈ Text.lines content, separator <:+: line → Separates line) →
        Blockwise (baseName path.toList) (blocks.map Text.unlines) loaded) := by
  have hpieces := exists_blockwise hheaders hother path.toList
  have hfenced := fenced_iff.2 (rfl : (Text.lines content).splitOnP _ = _)
  have hsolid := hfenced.solid_cutAt
  rw [Text.unlines_lines] at hsolid
  have hblocks := hpieces.congr hsolid
  refine ⟨_, _, _, Text.cuts_cutAt separator_ne_nil content, hfenced, load_eq_of_readText hread,
    hpieces, hblocks, fun honly => ?_⟩
  rwa [hfenced.flatMap_cutAt honly] at hblocks

/-- Three blocks that are not blank, where the second cannot be read. -/
def fencedContent : List Char :=
  "0 a 0\n ---\t\n\n---\n1 b\n---\n0 b 0\n".toList

theorem load_unnamed_fenced :
    (asciiDisk fencedContent).readText "runs.fa" = .ok fencedContent ∧
    (∀ line ∈ Text.lines fencedContent, ∀ name, ¬ Heads line name) ∧
    isPattern fencedContent = false ∧
    (∀ line ∈ Text.lines fencedContent, separator <:+: line → Separates line) ∧
    ∃ loaded, (asciiDisk fencedContent).load "runs.fa" = .ok loaded ∧
      Blockwise "runs".toList ["0 a 0".toList, [], "1 b".toList, "0 b 0\n".toList] loaded := by
  have hread : (asciiDisk fencedContent).readText "runs.fa" = .ok fencedContent := by decide +kernel
  have hheaders : ∀ line ∈ Text.lines fencedContent, ∀ name, ¬ Heads line name := by
    simp only [← headerName?_eq_none_iff]
    decide +kernel
  have hother : isPattern fencedContent = false := by decide +kernel
  have honly : ∀ line ∈ Text.lines fencedContent, separator <:+: line → Separates line := by
    decide +kernel
  have hsplit : (Text.lines fencedContent).splitOnP (fun line => Separates line) =
      [["0 a 0".toList], [[]], ["1 b".toList], ["0 b 0".toList, []]] := by decide +kernel
  have hbase : baseName "runs.fa".toList = "runs".toList := by decide +kernel
  rcases load_unnamed hread hheaders hother with
    ⟨-, blocks, loaded, -, hfenced, hload, -, -, hblocks⟩
  have hloaded := hblocks honly
  rw [← fenced_iff.1 hfenced, hsplit, hbase] at hloaded
  exact ⟨hread, hheaders, hother, honly, loaded, hload, hloaded⟩

/-- One block, with the separator in a comment. -/
def commentContent : List Char :=
  "# ---\n0 a 0\n".toList

/-- No line separates, and still the content is cut, so there are two automata. -/
theorem load_unnamed_comment :
    (asciiDisk commentContent).readText "loop.fa" = .ok commentContent ∧
    (∀ line ∈ Text.lines commentContent, ∀ name, ¬ Heads line name) ∧
    isPattern commentContent = false ∧
    (∀ line ∈ Text.lines commentContent, ¬ Separates line) ∧
    Fenced (Text.lines commentContent) [Text.lines commentContent] ∧
    ∃ loaded, (asciiDisk commentContent).load "loop.fa" = .ok loaded ∧
      loaded.automata.names = ["loop", "loop1"] ∧
      ¬ Blockwise "loop".toList ([Text.lines commentContent].map Text.unlines) loaded := by
  have hread : (asciiDisk commentContent).readText "loop.fa" = .ok commentContent := by
    decide +kernel
  have hheaders : ∀ line ∈ Text.lines commentContent, ∀ name, ¬ Heads line name := by
    simp only [← headerName?_eq_none_iff]
    decide +kernel
  have hother : isPattern commentContent = false := by decide +kernel
  have hnone : ∀ line ∈ Text.lines commentContent, ¬ Separates line := by decide +kernel
  have hnames : (ofContent "loop.fa".toList commentContent).automata.names = ["loop", "loop1"] := by
    decide +kernel
  refine ⟨hread, hheaders, hother, hnone, .last hnone, _, load_eq_of_readText hread, hnames, ?_⟩
  intro hblocks
  have hlength := hblocks.numbers.length_solid
  have hentries := congrArg List.length hnames
  have hone : (solid ([Text.lines commentContent].map Text.unlines)).length = 1 := by
    decide +kernel
  rw [Registry.names, List.length_map, List.length_cons, List.length_singleton] at hentries
  omega

end Disk

end FiniteState
