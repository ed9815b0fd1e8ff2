import FiniteState.Proofs.Outcomes
import FiniteState.Proofs.Pieces
import FiniteState.Proofs.StateNames
import FiniteState.Proofs.Writing

/-!
# What a Line Says

The lines of a description, one by one. A line with a keyword counts states, or lists some. Every
other line has to be that of an edge, either with two arrows in it or in three words, and it
mentions both ends of the edge. Which of these a line is, and whether it can be read at all, is said
here without the reader: the keyword is what the line begins with, arrows cut it into pieces, and
words stand between blanks.

With arrows it is only the number of pieces that matters. They may be blank, while words are never
empty.

## Main definitions

* `Description.Keyworded`: A line has a keyword.
* `Description.Joins`: A line is that of an edge between two ends.
* `Description.Mentions`: A line mentions the name of a state.
* `Description.Readable`: A line can be read.
* `Description.Statement.Supported`: The label in a statement is a symbol.

## Theorems

* `Description.joins_iff`: The ends of an edge are the outer parts of its line.
* `Description.readEdge_eq_ok_iff`: The lines of edges are read as such, and no others.
* `Description.readable_iff`: The lines that can be read, and make sense, are the readable ones.
* `Description.mem_names_iff`: A statement has the names that its line mentions.
-/

namespace FiniteState

namespace Description

/-- What the lines begin with that are not those of edges. -/
def lineKeywords : List String :=
  ["states:", "start:", "accept:"]

/-- A line has a keyword, which is what it begins with. -/
def Keyworded (line : List Char) : Prop :=
  ∃ keyword ∈ lineKeywords, keyword.toList <+: line

instance (line : List Char) : Decidable (Keyworded line) :=
  inferInstanceAs (Decidable (∃ keyword ∈ lineKeywords, keyword.toList <+: line))

/-- A line is that of an edge between two ends, with a text for the label: there are two arrows in
    it, with any blanks around the pieces, or there is none, and it consists of three words. -/
inductive Joins (source text target : List Char) : List Char → Prop
  | arrows {line first middle last : List Char}
      (hcuts : Text.Cuts ['-', '>'] line [first, middle, last]) (hsource : Padded source first)
      (htext : Padded text middle) (htarget : Padded target last) : Joins source text target line
  | threeWords {line : List Char} (hnone : ¬ ['-', '>'] <:+: line)
      (h : Text.Spaced line [source, text, target]) : Joins source text target line

/-- A line mentions the name of a state: it counts states or lists names, and else the name is an
    end of its edge. -/
inductive Mentions (limit : Nat) : List Char → List Char → Prop
  | counted {rest word : List Char} {count s : Nat} (h : Text.Spaced rest [word])
      (hdigits : Text.isDigits word = true) (hvalue : nameValue limit word = .ok count)
      (hs : s < count) : Mentions limit ("states:".toList ++ rest) (numeral s)
  | listed {rest name : List Char} {names : List (List Char)} (h : Text.Spaced rest names)
      (hother : ∀ word, names = [word] → Text.isDigits word = false) (hname : name ∈ names) :
      Mentions limit ("states:".toList ++ rest) name
  | starting {rest name : List Char} {names : List (List Char)} (h : Text.Spaced rest names)
      (hname : name ∈ names) : Mentions limit ("start:".toList ++ rest) name
  | accepting {rest name : List Char} {names : List (List Char)} (h : Text.Spaced rest names)
      (hname : name ∈ names) : Mentions limit ("accept:".toList ++ rest) name
  | source {line source text target : List Char} (hother : ¬ Keyworded line)
      (h : Joins source text target line) : Mentions limit line source
  | target {line source text target : List Char} (hother : ¬ Keyworded line)
      (h : Joins source text target line) : Mentions limit line target

/-- A line can be read: behind a keyword may be anything, except that a number of states must have a
    value, and without one the line has to be that of an edge. -/
inductive Readable (limit : Nat) : List Char → Prop
  | keyworded {line : List Char} (h : Keyworded line)
      (hcount : ∀ rest word, line = "states:".toList ++ rest → Text.Spaced rest [word] →
        Text.isDigits word = true → ∃ count, nameValue limit word = .ok count) : Readable limit line
  | edge {line source text target : List Char} {label : Option Char} (hother : ¬ Keyworded line)
      (h : Joins source text target line) (hspells : Spells text label)
      (hsymbol : ∀ c, label = some c → isSymbol c = true) : Readable limit line

/-- The label of the edge that a statement describes is a symbol, if it has one at all. -/
def Statement.Supported (said : Statement) : Prop :=
  ∀ edge ∈ said.edge?, ∀ c ∈ edge.2.1, isSymbol c = true

instance (said : Statement) : Decidable said.Supported :=
  decidable_of_iff (∀ edge ∈ said.edge?, edge.2.1.all isSymbol = true)
    (by simp only [Option.all_eq_true]; rfl)

/-! ### The parts of a line -/

section Parts

variable {line source text target : List Char} {said : Statement}

/-- The parts of a line that is that of an edge. -/
def edgeParts (line : List Char) : List (List Char) :=
  if hasArrow line then (Text.cutAt ['-', '>'] line).map Text.trim else Text.words line

theorem arrow_ne_nil : ['-', '>'] ≠ [] :=
  List.cons_ne_nil _ _

theorem hasArrow_iff : hasArrow line = true ↔ ['-', '>'] <:+: line := by
  have hcuts := Text.cuts_cutAt arrow_ne_nil line
  rw [hasArrow, decide_eq_true_iff]
  constructor
  · intro hlength
    by_contra hnone
    exact hlength (congrArg List.length (Text.cutAt_eq_singleton hnone))
  · intro hinside hlength
    -- A cut into a single piece has found no separator.
    rcases List.length_eq_one_iff.1 hlength with ⟨piece, hpiece⟩
    rw [hpiece] at hcuts
    cases hcuts with
    | last habsent => exact habsent hinside
    | next _ hrest => cases hrest

/-- The ends of an edge and its label are the parts of its line. -/
theorem joins_iff : Joins source text target line ↔ edgeParts line = [source, text, target] := by
  unfold edgeParts
  constructor
  · intro h
    cases h with
    | arrows hcuts hsource htext htarget =>
      have hpieces := (Text.cuts_iff arrow_ne_nil).1 hcuts
      have harrow : hasArrow line = true := by rw [hasArrow, hpieces]; rfl
      -- What stands around the arrows is trimmed, and padding says no more than that.
      rw [if_pos harrow, hpieces, List.map_cons, List.map_cons, List.map_singleton,
        hsource.trim_eq, htext.trim_eq, htarget.trim_eq]
    | threeWords hnone h => rw [if_neg (mt hasArrow_iff.1 hnone), h.words_eq]
  · intro h
    split at h
    next harrow =>
      rcases List.map_eq_cons_iff.1 h with ⟨first, rest, hpieces, hsource, hrest⟩
      rcases List.map_eq_cons_iff.1 hrest with ⟨middle, rest, rfl, htext, hrest⟩
      rcases List.map_eq_singleton_iff.1 hrest with ⟨last, rfl, htarget⟩
      exact .arrows ((Text.cuts_iff arrow_ne_nil).2 hpieces) (padded_iff.2 hsource)
        (padded_iff.2 htext) (padded_iff.2 htarget)
    next hnone => exact .threeWords (mt hasArrow_iff.2 hnone) (Text.spaced_iff.2 h)

theorem spells_of_readLabel {label : Option Char} (h : readLabel text = .ok label) :
    Spells text label := by
  unfold readLabel at h
  split at h
  next hepsilon =>
    obtain rfl := Except.ok.inj h
    exact .epsilon hepsilon
  next =>
    split at h
    next =>
      obtain rfl := Except.ok.inj h
      exact .symbol _
    next => exact nomatch h

/-- A line is read as that of an edge if it is one and its label can be read. -/
theorem readEdge_eq_ok_iff : readEdge line = .ok said ↔ ∃ source text target label,
    Joins source text target line ∧ readLabel text = .ok label ∧
      said = .edge source label target := by
  simp only [joins_iff]
  unfold readEdge edgeParts
  -- Either way the line is cut into parts, and three of them are asked for.
  by_cases harrow : hasArrow line = true
  · simp only [if_pos harrow]
    constructor
    · intro h
      split at h
      next source text target hparts =>
        rcases bind_eq_ok_iff.1 h with ⟨label, hlabel, hsaid⟩
        exact ⟨source, text, target, label, hparts, hlabel, (Except.ok.inj hsaid).symm⟩
      next => exact nomatch h
    · rintro ⟨source, text, target, label, hparts, hlabel, rfl⟩
      simp only [hparts, hlabel]
      rfl
  · simp only [if_neg harrow]
    constructor
    · intro h
      split at h
      next source text target hparts =>
        rcases bind_eq_ok_iff.1 h with ⟨label, hlabel, hsaid⟩
        exact ⟨source, text, target, label, hparts, hlabel, (Except.ok.inj hsaid).symm⟩
      next => exact nomatch h
    · rintro ⟨source, text, target, label, hparts, hlabel, rfl⟩
      simp only [hparts, hlabel]
      rfl

end Parts

/-! ### Lines -/

section Lines

variable {limit : Nat} {line rest name : List Char} {names : List (List Char)} {said : Statement}

theorem line_cases (line : List Char) : (∃ rest, line = "states:".toList ++ rest) ∨
    (∃ rest, line = "start:".toList ++ rest) ∨ (∃ rest, line = "accept:".toList ++ rest) ∨
      ¬ Keyworded line := by
  by_cases h : Keyworded line
  · rcases h with ⟨keyword, hkeyword, rest, rfl⟩
    simp only [lineKeywords, List.mem_cons, List.not_mem_nil, or_false] at hkeyword
    rcases hkeyword with rfl | rfl | rfl
    · exact Or.inl ⟨rest, rfl⟩
    · exact Or.inr (Or.inl ⟨rest, rfl⟩)
    · exact Or.inr (Or.inr (Or.inl ⟨rest, rfl⟩))
  · exact Or.inr (Or.inr (Or.inr h))

theorem readStatement_states (h : Text.Spaced rest names) :
    readStatement limit ("states:".toList ++ rest) =
      (do return .states (← readStates limit names)) := by
  simp only [readStatement, wordsAfter?_append, h.words_eq]

theorem readStatement_start (h : Text.Spaced rest names) :
    readStatement limit ("start:".toList ++ rest) = .ok (.starting names) := by
  have hstates : wordsAfter? "states:" ("start:".toList ++ rest) = none := rfl
  simp only [readStatement, hstates, wordsAfter?_append, h.words_eq]

theorem readStatement_accept (h : Text.Spaced rest names) :
    readStatement limit ("accept:".toList ++ rest) = .ok (.accepting names) := by
  have hstates : wordsAfter? "states:" ("accept:".toList ++ rest) = none := rfl
  have hstart : wordsAfter? "start:" ("accept:".toList ++ rest) = none := rfl
  simp only [readStatement, hstates, hstart, wordsAfter?_append, h.words_eq]

theorem readStatement_of_not_keyworded (h : ¬ Keyworded line) :
    readStatement limit line = readEdge line := by
  have hnone : ∀ keyword ∈ lineKeywords, wordsAfter? keyword line = none :=
    fun keyword hkeyword => wordsAfter?_eq_none fun hbegins => h ⟨keyword, hkeyword, hbegins⟩
  simp only [lineKeywords, List.forall_mem_cons] at hnone
  simp only [readStatement, hnone.1, hnone.2.1, hnone.2.2.1]

/-- A single word of digits counts states, and all other words are names. -/
theorem readStates_eq_ok_iff {found : List (List Char)} :
    readStates limit names = .ok found ↔
      (∃ word count, names = [word] ∧ Text.isDigits word = true ∧
        nameValue limit word = .ok count ∧ found = countedNames count) ∨
      (∀ word, names = [word] → Text.isDigits word = false) ∧ found = names := by
  constructor
  · intro h
    unfold readStates at h
    split at h
    next word =>
      split at h
      next hdigits =>
        cases hvalue : nameValue limit word with
        | ok count =>
          rw [hvalue] at h
          obtain rfl := Except.ok.inj h
          exact Or.inl ⟨word, count, rfl, hdigits, hvalue, rfl⟩
        | error fault =>
          rw [hvalue] at h
          exact nomatch h
      next hdigits =>
        obtain rfl := Except.ok.inj h
        exact Or.inr ⟨fun _ hword => List.singleton_inj.1 hword ▸ Bool.eq_false_iff.2 hdigits, rfl⟩
    -- More than one word, or none, are names whatever they look like.
    next hmany =>
      obtain rfl := Except.ok.inj h
      exact Or.inr ⟨fun word hword => absurd hword (hmany word), rfl⟩
  · rintro (⟨word, count, rfl, hdigits, hvalue, rfl⟩ | ⟨hother, rfl⟩)
    · rw [readStates, if_pos hdigits, hvalue]
      rfl
    · unfold readStates
      split
      next word => rw [if_neg (Bool.eq_false_iff.1 (hother word rfl))]
      next => rfl

/-- A statement has the names that its line mentions. -/
theorem mem_names_iff (hread : readStatement limit line = .ok said) :
    name ∈ said.names ↔ Mentions limit line name := by
  constructor
  · intro hname
    rcases line_cases line with ⟨rest, rfl⟩ | ⟨rest, rfl⟩ | ⟨rest, rfl⟩ | hother
    · have hspaced : Text.Spaced rest (Text.words rest) := Text.spaced_iff.2 rfl
      rw [readStatement_states hspaced] at hread
      rcases bind_eq_ok_iff.1 hread with ⟨found, hfound, hsaid⟩
      obtain rfl := Except.ok.inj hsaid
      rcases readStates_eq_ok_iff.1 hfound with
        ⟨word, count, hword, hdigits, hvalue, rfl⟩ | ⟨hother, rfl⟩
      · rcases mem_countedNames.1 hname with ⟨s, hs, rfl⟩
        rw [hword] at hspaced
        exact .counted hspaced hdigits hvalue hs
      · exact .listed hspaced hother hname
    · have hspaced : Text.Spaced rest (Text.words rest) := Text.spaced_iff.2 rfl
      rw [readStatement_start hspaced] at hread
      obtain rfl := Except.ok.inj hread
      exact .starting hspaced hname
    · have hspaced : Text.Spaced rest (Text.words rest) := Text.spaced_iff.2 rfl
      rw [readStatement_accept hspaced] at hread
      obtain rfl := Except.ok.inj hread
      exact .accepting hspaced hname
    · rw [readStatement_of_not_keyworded hother] at hread
      rcases readEdge_eq_ok_iff.1 hread with ⟨source, text, target, label, hjoins, -, rfl⟩
      rcases List.mem_cons.1 hname with rfl | hname
      · exact .source hother hjoins
      · obtain rfl := List.mem_singleton.1 hname
        exact .target hother hjoins
  · intro hmentions
    -- The ends of a line are determined, so those that it mentions are those that were read.
    have hends : ∀ {source text target : List Char}, ¬ Keyworded line →
        Joins source text target line → said.names = [source, target] := by
      intro source text target hother hjoins
      rw [readStatement_of_not_keyworded hother] at hread
      rcases readEdge_eq_ok_iff.1 hread with ⟨source', text', target', label, hjoins', -, rfl⟩
      have hparts := (joins_iff.1 hjoins).symm.trans (joins_iff.1 hjoins')
      simp only [List.cons.injEq] at hparts
      rw [Statement.names, hparts.1, hparts.2.2.1]
    cases hmentions with
    | counted h hdigits hvalue hs =>
      have hfound := readStates_eq_ok_iff.2 (Or.inl ⟨_, _, rfl, hdigits, hvalue, rfl⟩)
      rw [readStatement_states h, hfound] at hread
      obtain rfl := Except.ok.inj hread
      exact mem_countedNames.2 ⟨_, hs, rfl⟩
    | listed h hother hname =>
      rw [readStatement_states h, readStates_eq_ok_iff.2 (Or.inr ⟨hother, rfl⟩)] at hread
      obtain rfl := Except.ok.inj hread
      exact hname
    | starting h hname =>
      rw [readStatement_start h] at hread
      obtain rfl := Except.ok.inj hread
      exact hname
    | accepting h hname =>
      rw [readStatement_accept h] at hread
      obtain rfl := Except.ok.inj hread
      exact hname
    | source hother h => simp [hends hother h]
    | target hother h => simp [hends hother h]

/-- The lines that can be read, with a symbol for the label if there is one, are the readable
    ones. -/
theorem readable_iff :
    Readable limit line ↔ ∃ said, readStatement limit line = .ok said ∧ said.Supported := by
  constructor
  · intro h
    cases h with
    | keyworded h hcount =>
      rcases line_cases line with ⟨rest, rfl⟩ | ⟨rest, rfl⟩ | ⟨rest, rfl⟩ | hother
      · have hspaced : Text.Spaced rest (Text.words rest) := Text.spaced_iff.2 rfl
        -- Only a single word of digits can fail, and that one has a value.
        have hfound : ∃ found, readStates limit (Text.words rest) = .ok found := by
          by_cases hcounts : ∃ word, Text.words rest = [word] ∧ Text.isDigits word = true
          · rcases hcounts with ⟨word, hword, hdigits⟩
            rcases hcount rest word rfl (Text.spaced_iff.2 hword) hdigits with ⟨count, hvalue⟩
            exact ⟨_, readStates_eq_ok_iff.2 (Or.inl ⟨word, count, hword, hdigits, hvalue, rfl⟩)⟩
          · refine ⟨_, readStates_eq_ok_iff.2 (Or.inr ⟨fun word hword => ?_, rfl⟩)⟩
            exact Bool.eq_false_iff.2 fun hdigits => hcounts ⟨word, hword, hdigits⟩
        rcases hfound with ⟨found, hfound⟩
        refine ⟨.states found, ?_, fun _ hedge => nomatch hedge⟩
        rw [readStatement_states hspaced, hfound]
        rfl
      · exact ⟨_, readStatement_start (Text.spaced_iff.2 rfl), fun _ hedge => nomatch hedge⟩
      · exact ⟨_, readStatement_accept (Text.spaced_iff.2 rfl), fun _ hedge => nomatch hedge⟩
      · exact absurd h hother
    | @edge source text target label hother h hspells hsymbol =>
      have hedge := readEdge_eq_ok_iff.2
        ⟨source, text, target, label, h, readLabel_of_spells hspells hsymbol, rfl⟩
      refine ⟨_, (readStatement_of_not_keyworded hother).trans hedge, ?_⟩
      intro edge hsame
      obtain rfl := Option.some.inj hsame
      exact hsymbol
  · rintro ⟨said, hread, hsupported⟩
    -- A line with a keyword that has been read says nothing about labels, and any other is that of
    -- an edge.
    by_cases h : Keyworded line
    · refine .keyworded h fun rest word hline hspaced hdigits => ?_
      subst hline
      rw [readStatement_states hspaced] at hread
      rcases bind_eq_ok_iff.1 hread with ⟨found, hfound, -⟩
      rcases readStates_eq_ok_iff.1 hfound with ⟨word', count, hword, -, hvalue, -⟩ | ⟨hother, -⟩
      · obtain rfl := List.singleton_inj.1 hword
        exact ⟨count, hvalue⟩
      · exact absurd hdigits (Bool.eq_false_iff.1 (hother word rfl))
    · rw [readStatement_of_not_keyworded h] at hread
      rcases readEdge_eq_ok_iff.1 hread with ⟨source, text, target, label, hjoins, hlabel, rfl⟩
      exact .edge h hjoins (spells_of_readLabel hlabel) (hsupported _ rfl)

end Lines

end Description

end FiniteState
