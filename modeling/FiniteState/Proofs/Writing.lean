import FiniteState.Proofs.LineOrder
import Mathlib.Data.List.Chain

/-!
# Writing Automata Down

An automaton can be written down with decimal numerals as the names of its states: how many states
there are, which of them are marked, and every edge on a line of its own. How a line is written is
left open as far as the format leaves it open, so `Writes` is a relation. A content describes an
automaton if its significant lines write entries of that automaton down, and each entry stands on
some line.

The symbols are what makes reading such lines more than a matter of form. An edge on `-` or `>`
stands between arrows made of the same two characters, `#` begins comments, `:` ends keywords, and
digits are names of states. None of this does any harm: lines of edges begin with a numeral, an
arrow is found from the left and no piece in front of one ends in the middle of an arrow, and
between blanks a single character is no arrow. Nor can a symbol be taken for a name of epsilon.

## Main definitions

* `Description.Spells`: A text stands for a label.
* `Description.Writes`: A line writes an entry of an automaton down.
* `Description.Padded`, `Description.Insignificant`: The blanks and the lines that do not count.
* `Description.Describes`: A content describes an automaton.
* `Description.Arrowless`: No arrow begins in a text.
* `Description.Says`: A statement says an entry of an automaton.

## Theorems

* `Description.cutAt_arrows`: Arrows are found where they stand.
* `Description.readLabel_of_spells`: Labels are read as what they are.
* `Description.readStatement_of_writes`: A line says the entry that it writes down.
* `Description.padded_iff`: The blanks around a line are what stripping it takes away.
* `Description.Describes.exists_entry`: The significant lines of a description write entries down.
-/

namespace FiniteState

namespace Description

/-- The numeral that names a state. -/
def numeral (s : Nat) : List Char :=
  Nat.toDigits 10 s

/-- A text stands for a label: a character for itself, and a name of epsilon, in any letter case,
    for epsilon. -/
inductive Spells : List Char → Option Char → Prop
  | symbol (c : Char) : Spells [c] (some c)
  | epsilon {text : List Char} (h : Text.lower text ∈ epsilonNames.map String.toList) :
      Spells text none

/-- What there is to write down about an automaton. -/
inductive Entry
  | size
  | starting
  | final
  | edge (e : Edge)

/-- A line writes an entry of an automaton down. Marked states may be listed in any order, and there
    may be any blanks around numerals and labels. -/
inductive Writes (A : Automaton) : Entry → List Char → Prop
  | size {rest : List Char} (h : Text.Spaced rest [numeral A.size]) :
      Writes A .size ("states:".toList ++ rest)
  | starting {rest : List Char} {names : List (List Char)} (h : Text.Spaced rest names)
      (hnames : ∀ name, name ∈ names ↔ ∃ s ∈ A.starting, numeral s = name) :
      Writes A .starting ("start:".toList ++ rest)
  | final {rest : List Char} {names : List (List Char)} (h : Text.Spaced rest names)
      (hnames : ∀ name, name ∈ names ↔ ∃ s ∈ A.final, numeral s = name) :
      Writes A .final ("accept:".toList ++ rest)
  | arrows {e : Edge} {source text label target : List Char} (he : e ∈ A.edges)
      (hsource : Text.Spaced source [numeral e.source]) (hspells : Spells text e.label)
      (hlabel : Text.Spaced label [text]) (htarget : Text.Spaced target [numeral e.target]) :
      Writes A (.edge e) (source ++ (['-', '>'] ++ (label ++ (['-', '>'] ++ target))))
  | threeWords {e : Edge} {line text : List Char} (he : e ∈ A.edges) (hspells : Spells text e.label)
      (h : Text.Spaced line [numeral e.source, text, numeral e.target]) : Writes A (.edge e) line

/-- A line is a core with blanks around it. The core itself has none at its ends. -/
inductive Padded : List Char → List Char → Prop
  | mk {before core after : List Char} (hbefore : ∀ c ∈ before, Text.isBlank c = true)
      (hafter : ∀ c ∈ after, Text.isBlank c = true)
      (hhead : ∀ c ∈ core.head?, Text.isBlank c = false)
      (hlast : ∀ c ∈ core.getLast?, Text.isBlank c = false) :
      Padded core (before ++ (core ++ after))

/-- A line that does not count: a blank one or a comment. -/
inductive Insignificant : List Char → Prop
  | blank {line : List Char} (h : ∀ c ∈ line, Text.isBlank c = true) : Insignificant line
  | comment {before : List Char} (h : ∀ c ∈ before, Text.isBlank c = true) (rest : List Char) :
      Insignificant (before ++ '#' :: rest)

/-- A line of a content writes an entry of an automaton down. -/
def WrittenIn (A : Automaton) (content : List Char) (entry : Entry) : Prop :=
  ∃ line ∈ Text.lines content, ∃ core, Padded core line ∧ Writes A entry core

/-- A content describes an automaton: every line that counts writes an entry of it down, and every
    entry is written down. Nothing is said about the order of lines, and lines may be repeated. -/
structure Describes (A : Automaton) (content : List Char) : Prop where
  line : ∀ line ∈ Text.lines content,
    Insignificant line ∨ ∃ core entry, Padded core line ∧ Writes A entry core
  size : WrittenIn A content .size
  starting : WrittenIn A content .starting
  final : WrittenIn A content .final
  edge : ∀ e ∈ A.edges, WrittenIn A content (.edge e)

/-! ### Arrows -/

/-- No arrow begins in a text: where `-` stands, no `>` follows. -/
def Arrowless (text : List Char) : Prop :=
  text.IsChain fun c d => ¬ (c = '-' ∧ d = '>')

variable {text : List Char} {words : List (List Char)}

theorem arrowless_of_not_mem (h : '-' ∉ text) : Arrowless text := by
  induction text with
  | nil => exact .nil
  | cons c text ih =>
    rw [List.mem_cons, not_or] at h
    exact List.isChain_cons.2 ⟨fun _ _ harrow => h.1 harrow.1.symm, ih h.2⟩

theorem Arrowless.absent (h : Arrowless text) : ¬ ['-', '>'] <:+: text := by
  intro hinside
  rcases hinside with ⟨front, back, rfl⟩
  have harrow := (List.isChain_append.1 (List.isChain_append.1 h).1).2.1
  exact (List.isChain_cons_cons.1 harrow).1 ⟨rfl, rfl⟩

/-- An arrow after a text without arrows is not begun in the text. -/
theorem Arrowless.not_begun {front back rest : List Char} (h : Arrowless (front ++ back))
    (hback : back ≠ []) : ¬ ['-', '>'] <+: back ++ (['-', '>'] ++ rest) := by
  have harrowless : Arrowless back := (List.isChain_append.1 h).2.1
  intro hbegins
  match back, hback with
  | [c], _ =>
    -- The character after the last one of the text is the `-` of the arrow.
    have hsecond := (List.cons_prefix_cons.1 (List.cons_prefix_cons.1 hbegins).2).1
    exact absurd hsecond (by decide)
  | c :: d :: back, _ =>
    rcases List.cons_prefix_cons.1 hbegins with ⟨hc, hbegins⟩
    have hd := (List.cons_prefix_cons.1 hbegins).1
    exact (List.isChain_cons_cons.1 harrowless).1 ⟨hc.symm, hd.symm⟩

theorem isBlank_ne {c d : Char} (hc : Text.isBlank c = true) (hd : Text.isBlank d = false) :
    c ≠ d := by
  rintro rfl
  rw [hc] at hd
  exact nomatch hd

/-- An arrow has no blank in it, so it would have to be part of a word. -/
theorem arrowless_of_spaced (h : Text.Spaced text words) (hwords : ∀ word ∈ words, Arrowless word) :
    Arrowless text := by
  have hblank : ∀ blanks : List Char, (∀ c ∈ blanks, Text.isBlank c = true) → Arrowless blanks :=
    fun blanks hblanks => arrowless_of_not_mem fun hmem => absurd (hblanks '-' hmem) (by decide)
  induction h with
  | blank hblanks => exact hblank _ hblanks
  | @word blanks word rest others hblanks hne hword hrest h ih =>
    rcases List.forall_mem_cons.1 hwords with ⟨hfirst, hothers⟩
    -- An arrow across a seam would have a blank for one of its two characters.
    refine List.isChain_append.2
      ⟨hblank _ hblanks, List.isChain_append.2 ⟨hfirst, ih hothers, ?_⟩, ?_⟩
    · intro c _ d hd harrow
      exact isBlank_ne (hrest d hd) (by decide) harrow.2
    · intro c hc d _ harrow
      exact isBlank_ne (hblanks c (List.mem_of_mem_getLast? hc)) (by decide) harrow.1

/-- Arrows are found where they stand. -/
theorem cutAt_arrows {source label target : List Char} (hsource : Arrowless source)
    (hlabel : Arrowless label) (htarget : Arrowless target) :
    Text.cutAt ['-', '>'] (source ++ (['-', '>'] ++ (label ++ (['-', '>'] ++ target)))) =
      [source, label, target] := by
  rw [Text.cutAt_append (by decide) fun front back hpiece hback => ?_,
    Text.cutAt_append (by decide) fun front back hpiece hback => ?_,
    Text.cutAt_eq_singleton htarget.absent]
  · exact Arrowless.not_begun (hpiece ▸ hlabel) hback
  · exact Arrowless.not_begun (hpiece ▸ hsource) hback

theorem not_mem_numeral (s : Nat) : '-' ∉ numeral s := by
  intro hmem
  exact absurd (Nat.isDigit_of_mem_toDigits (by decide) (by decide) hmem) (by decide)

/-- No spelling of a label has an arrow in it. -/
theorem Spells.arrowless {label : Option Char} (h : Spells text label) : Arrowless text := by
  cases h with
  | symbol c => exact .singleton c
  | epsilon h =>
    refine arrowless_of_not_mem fun hmem => ?_
    have hnames : ∀ name ∈ epsilonNames.map String.toList, '-' ∉ name := by decide
    exact hnames _ h (Text.mem_lower (by decide) (by decide +kernel) hmem)

/-! ### Lines -/

/-- No symbol is taken for a name of epsilon. -/
theorem lower_not_mem_epsilonNames {c : Char} (hc : isSymbol c = true) :
    Text.lower [c] ∉ epsilonNames.map String.toList := by
  have hcode := (isSymbol_eq_true_iff.1 hc).2
  -- The only name of a single character lies far beyond the lower-case forms of symbols.
  have hnames : ∀ d : Char, d.toNat < 512 → [d] ∉ epsilonNames.map String.toList := by
    intro d hd hmem
    obtain rfl : d = 'ε' := by simpa [epsilonNames] using hmem
    exact absurd hd (by decide)
  rcases Text.lower_singleton (Nat.lt_succ_of_le hcode) with hsame | hlower
  · rw [hsame]
    exact hnames c (by omega)
  · rw [hlower]
    refine hnames _ ?_
    rw [toNat_ofNat (Or.inl (by omega))]
    omega

/-- Labels are read as what they are. -/
theorem readLabel_of_spells {label : Option Char} (h : Spells text label)
    (hlabel : ∀ c, label = some c → isSymbol c = true) : readLabel text = .ok label := by
  cases h with
  | symbol c => exact if_neg (lower_not_mem_epsilonNames (hlabel c rfl))
  | epsilon h => exact if_pos h

theorem wordsAfter?_append (keyword : String) (rest : List Char) :
    wordsAfter? keyword (keyword.toList ++ rest) = some (Text.words rest) := by
  rw [wordsAfter?, if_pos (List.isPrefixOf_iff_prefix.2 (List.prefix_append _ rest)),
    List.drop_left]

theorem wordsAfter?_eq_none {keyword : String} {line : List Char}
    (h : ¬ keyword.toList <+: line) : wordsAfter? keyword line = none := by
  rw [wordsAfter?, if_neg (mt List.isPrefixOf_iff_prefix.1 h)]

variable {limit : Nat}

/-- A line that does not begin with a letter of a keyword is that of an edge. -/
theorem readStatement_eq_readEdge {line : List Char}
    (h : ∀ c ∈ line.head?, c ≠ 's' ∧ c ≠ 'a') : readStatement limit line = readEdge line := by
  have hbegins : ∀ c keyword, c :: keyword <+: line → c ≠ 's' ∧ c ≠ 'a' := by
    intro c keyword hbegins
    rcases hbegins with ⟨rest, rfl⟩
    exact h c rfl
  have hstates : wordsAfter? "states:" line = none :=
    wordsAfter?_eq_none fun hkeyword => (hbegins 's' _ hkeyword).1 rfl
  have hstart : wordsAfter? "start:" line = none :=
    wordsAfter?_eq_none fun hkeyword => (hbegins 's' _ hkeyword).1 rfl
  have haccept : wordsAfter? "accept:" line = none :=
    wordsAfter?_eq_none fun hkeyword => (hbegins 'a' _ hkeyword).2 rfl
  simp only [readStatement, hstates, hstart, haccept]

/-- A line that begins with a numeral does so with a blank or a digit. -/
theorem head?_of_numeral {s : Nat} (h : Text.Spaced text (numeral s :: words)) (rest : List Char) :
    ∃ c tail, text ++ rest = c :: tail ∧ (Text.isBlank c = true ∨ c.isDigit = true) := by
  cases h with
  | @word blanks _ after _ hblanks hne hword hafter h =>
    cases blanks with
    | cons d blanks =>
      exact ⟨d, _, rfl, Or.inl (hblanks d List.mem_cons_self)⟩
    | nil =>
      rcases List.exists_cons_of_ne_nil hne with ⟨d, tail, hnumeral⟩
      refine ⟨d, tail ++ after ++ rest, by rw [hnumeral]; rfl, Or.inr ?_⟩
      have hmem : d ∈ numeral s := hnumeral ▸ List.mem_cons_self
      exact Nat.isDigit_of_mem_toDigits (by decide) (by decide) hmem

/-- A line that begins with a numeral is that of an edge. -/
theorem readStatement_of_numeral {s : Nat} (h : Text.Spaced text (numeral s :: words))
    (rest : List Char) : readStatement limit (text ++ rest) = readEdge (text ++ rest) := by
  refine readStatement_eq_readEdge fun c hc => ?_
  rcases head?_of_numeral h rest with ⟨d, tail, heq, hd⟩
  rw [heq, List.head?_cons, Option.mem_some_iff] at hc
  subst hc
  constructor <;> (rintro rfl; exact absurd hd (by decide))

/-- What a line says that writes an entry of an automaton down. -/
inductive Says (A : Automaton) : Entry → Statement → Prop
  | size : Says A .size (.states (countedNames A.size))
  | starting {names : List (List Char)}
      (hnames : ∀ name, name ∈ names ↔ ∃ s ∈ A.starting, numeral s = name) :
      Says A .starting (.starting names)
  | final {names : List (List Char)}
      (hnames : ∀ name, name ∈ names ↔ ∃ s ∈ A.final, numeral s = name) :
      Says A .final (.accepting names)
  | edge {e : Edge} (he : e ∈ A.edges) :
      Says A (.edge e) (.edge (numeral e.source) e.label (numeral e.target))

variable {A : Automaton} {entry : Entry} {line : List Char}

theorem readStates_numeral {n : Nat} (hlimit : (numeral n).length ≤ limit) :
    readStates limit [numeral n] = .ok (countedNames n) := by
  have hdigits : Text.isDigits (numeral n) = true := Text.isDigits_toDigits n
  have hvalue : Text.readNatural limit (numeral n) = .ok n := Text.readNatural_toDigits hlimit
  rw [readStates, if_pos hdigits, nameValue, hvalue]
  rfl

theorem readEdge_arrows {e : Edge} {source label target : List Char}
    (hsource : Text.Spaced source [numeral e.source]) (hspells : Spells text e.label)
    (hlabel : Text.Spaced label [text]) (htarget : Text.Spaced target [numeral e.target])
    (hsymbol : ∀ c, e.label = some c → isSymbol c = true) :
    readEdge (source ++ (['-', '>'] ++ (label ++ (['-', '>'] ++ target)))) =
      .ok (.edge (numeral e.source) e.label (numeral e.target)) := by
  -- Neither numerals nor labels hold an arrow, so the two that are written are the only ones.
  have hnumeral : ∀ {piece : List Char} {s : Nat}, Text.Spaced piece [numeral s] →
      Arrowless piece := fun h => arrowless_of_spaced h
    (List.forall_mem_singleton.2 (arrowless_of_not_mem (not_mem_numeral _)))
  have hcut := cutAt_arrows (hnumeral hsource)
    (arrowless_of_spaced hlabel (List.forall_mem_singleton.2 hspells.arrowless)) (hnumeral htarget)
  have harrow : hasArrow (source ++ (['-', '>'] ++ (label ++ (['-', '>'] ++ target)))) = true := by
    rw [hasArrow, hcut]
    rfl
  rw [readEdge, if_pos harrow, hcut]
  simp only [List.map_cons, List.map_nil, hsource.trim_eq, hlabel.trim_eq, htarget.trim_eq]
  rw [readLabel_of_spells hspells hsymbol]
  rfl

theorem readEdge_threeWords {e : Edge} (hspells : Spells text e.label)
    (h : Text.Spaced line [numeral e.source, text, numeral e.target])
    (hsymbol : ∀ c, e.label = some c → isSymbol c = true) :
    readEdge line = .ok (.edge (numeral e.source) e.label (numeral e.target)) := by
  have hwords : ∀ word ∈ [numeral e.source, text, numeral e.target], Arrowless word := by
    simp only [List.forall_mem_cons]
    exact ⟨arrowless_of_not_mem (not_mem_numeral _), hspells.arrowless,
      arrowless_of_not_mem (not_mem_numeral _), List.forall_mem_nil _⟩
  have harrow : ¬ hasArrow line = true := by
    rw [hasArrow, Text.cutAt_eq_singleton (arrowless_of_spaced h hwords).absent]
    exact Bool.false_ne_true
  rw [readEdge, if_neg harrow, h.words_eq]
  dsimp only
  rw [readLabel_of_spells hspells hsymbol]
  rfl

/-- A line says the entry that it writes down. -/
theorem readStatement_of_writes (hA : A.WellFormed) (hlimit : (numeral A.size).length ≤ limit)
    (h : Writes A entry line) :
    ∃ said, readStatement limit line = .ok said ∧ Says A entry said := by
  cases h with
  | size h =>
    refine ⟨_, ?_, .size⟩
    simp only [readStatement, wordsAfter?_append, h.words_eq, readStates_numeral hlimit]
    rfl
  -- The keywords are tried in turn, and none of them begins like one that is tried before it.
  | @starting rest names h hnames =>
    refine ⟨_, ?_, .starting hnames⟩
    have hstates : wordsAfter? "states:" ("start:".toList ++ rest) = none := rfl
    simp only [readStatement, hstates, wordsAfter?_append, h.words_eq]
  | @final rest names h hnames =>
    refine ⟨_, ?_, .final hnames⟩
    have hstates : wordsAfter? "states:" ("accept:".toList ++ rest) = none := rfl
    have hstart : wordsAfter? "start:" ("accept:".toList ++ rest) = none := rfl
    simp only [readStatement, hstates, hstart, wordsAfter?_append, h.words_eq]
  | arrows he hsource hspells hlabel htarget =>
    refine ⟨_, ?_, .edge he⟩
    rw [readStatement_of_numeral hsource]
    exact readEdge_arrows hsource hspells hlabel htarget (hA.isSymbol_of_label _ he)
  | threeWords he hspells h =>
    refine ⟨_, ?_, .edge he⟩
    rw [← List.append_nil line, readStatement_of_numeral h, List.append_nil]
    exact readEdge_threeWords hspells h (hA.isSymbol_of_label _ he)

/-! ### Lines that count -/

/-- A line that writes an entry down is neither blank nor a comment. -/
theorem Writes.significant (h : Writes A entry line) : line ≠ [] ∧ line.head? ≠ some '#' := by
  -- The line of an edge begins with a numeral, and a numeral has a digit in front.
  have hedge : ∀ {piece : List Char} {s : Nat} {words : List (List Char)},
      Text.Spaced piece (numeral s :: words) → ∀ rest, piece ++ rest ≠ [] ∧
        (piece ++ rest).head? ≠ some '#' := by
    intro piece s words hpiece rest
    rcases head?_of_numeral hpiece rest with ⟨c, tail, heq, hc⟩
    rw [heq, List.head?_cons]
    refine ⟨List.cons_ne_nil c tail, fun hsharp => ?_⟩
    rw [Option.some.inj hsharp] at hc
    exact absurd hc (by decide)
  cases h with
  | size | starting | final => exact ⟨List.cons_ne_nil _ _, by simp⟩
  | arrows he hsource => exact hedge hsource _
  | threeWords he hspells h => simpa using hedge h []

theorem Padded.trim_eq {core : List Char} (h : Padded core line) : Text.trim line = core := by
  cases h with
  | mk hbefore hafter hhead hlast =>
    rw [Text.trim_blanks_append hbefore, Text.trim_append_blanks hafter,
      Text.trim_eq_self hhead hlast]

/-- Every line is what is left of it without the blanks at its ends, with these around it. -/
theorem padded_iff {core : List Char} : Padded core line ↔ Text.trim line = core := by
  constructor
  · exact Padded.trim_eq
  · rintro rfl
    rcases Text.exists_trim line with ⟨before, after, hbefore, hafter, happend⟩
    have hends := Text.isBlank_ends_trim line
    have hpadded := Padded.mk hbefore hafter hends.1 hends.2
    rwa [happend] at hpadded

instance (core line : List Char) : Decidable (Padded core line) :=
  decidable_of_iff _ padded_iff.symm

theorem Insignificant.trim_cases (h : Insignificant line) :
    Text.trim line = [] ∨ (Text.trim line).head? = some '#' := by
  cases h with
  | blank h => exact Or.inl (Text.trim_eq_nil_iff.2 h)
  | comment h rest =>
    rw [Text.trim_blanks_append h]
    exact Or.inr (Text.head?_trim_cons (by decide))

variable {content : List Char}

theorem WrittenIn.exists_significant (h : WrittenIn A content entry) :
    ∃ core ∈ significantLines content, Writes A entry core := by
  rcases h with ⟨line, hline, core, hpadded, hwrites⟩
  exact ⟨core, mem_significantLines.2 ⟨line, hline, hpadded.trim_eq, hwrites.significant⟩, hwrites⟩

theorem Describes.exists_entry (h : Describes A content) {core : List Char}
    (hcore : core ∈ significantLines content) : ∃ entry, Writes A entry core := by
  rcases mem_significantLines.1 hcore with ⟨line, hline, rfl, hne, hhead⟩
  rcases h.line line hline with hinsignificant | ⟨core, entry, hpadded, hwrites⟩
  · rcases hinsignificant.trim_cases with hnil | hcomment
    · exact absurd hnil hne
    · exact absurd hcomment hhead
  · exact ⟨entry, hpadded.trim_eq ▸ hwrites⟩

end Description

end FiniteState
