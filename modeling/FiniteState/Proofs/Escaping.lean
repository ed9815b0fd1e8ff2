import FiniteState.Proofs.Chains
import FiniteState.Proofs.Matching
import FiniteState.Proofs.Printing

/-!
# Literal Texts

Every text can be written as a pattern that matches the text and nothing else: operators and
backslashes get a backslash in front of them, and any other character may have one. Whichever of
them do, the tree of the pattern is the row of the characters, and its smallest automaton is the
chain of the text. So matchers of one text differ in nothing but the pattern that they show.

A backslash is a lexeme of its own with the character behind it. The relation between a text and its
patterns goes character by character, like the spelling of a pattern, and one induction along it
yields both the lexemes and what each of them derives.

## Main definitions

* `Pattern.Escapes`: A pattern writes a text, with a backslash before what means something else.

## Theorems

* `Pattern.Escapes.parse_eq`: The tree of such a pattern is the row of the characters.
* `Regex.mem_language_row`: A row of characters stands for the text that they make.
* `Pattern.ofPattern_eq_chain`: Such a pattern matches its text only, by the chain of the text.
-/

namespace FiniteState

namespace Regex

/-- The trees of the characters of a text. -/
def leaves (text : List Char) : List Regex :=
  text.map fun c => .character [c]

theorem mem_language_leaves {text word : List Char} :
    word ∈ (languages (leaves text)).prod ↔ word = text := by
  induction text generalizing word with
  | nil =>
    rw [leaves, List.map_nil, languages, List.prod_nil]
    exact Language.mem_one word
  | cons c text ih =>
    have hcons : (languages (leaves (c :: text))).prod
        = (character [c]).language * (languages (leaves text)).prod := by
      rw [← List.prod_cons]
      rfl
    rw [hcons, Language.mem_mul]
    constructor
    · intro h
      rcases h with ⟨first, hfirst, rest, hrest, rfl⟩
      rcases hfirst with ⟨d, hd, rfl⟩
      -- Each leaf takes exactly its own character.
      rw [List.mem_singleton.1 hd, ih.1 hrest, List.singleton_append]
    · rintro rfl
      exact ⟨[c], ⟨c, List.mem_singleton_self c, rfl⟩, text, ih.2 rfl, rfl⟩

/-- The row of the characters of a text stands for the text. -/
theorem mem_language_row {text word : List Char} :
    word ∈ (Pattern.inRow (leaves text)).language ↔ word = text := by
  rw [← mem_language_leaves]
  unfold Pattern.inRow
  split
  next node hnode => rw [hnode, languages, languages, List.prod_singleton]
  next => rfl

end Regex

namespace Pattern

/-- A pattern writes a text character by character. Operators and backslashes have a backslash
    before them; the other characters have one or not. -/
inductive Escapes : List Char → List Char → Prop
  | nil : Escapes [] []
  | bare {c : Char} {text pattern : List Char} (hoperator : isOperator c = false)
      (hbackslash : c ≠ '\\') (rest : Escapes text pattern) : Escapes (c :: text) (c :: pattern)
  | escaped {c : Char} {text pattern : List Char} (rest : Escapes text pattern) :
      Escapes (c :: text) ('\\' :: c :: pattern)

variable {text pattern : List Char}

/-- Such a pattern spells a lexeme for each character, which derives the tree of the character. -/
theorem Escapes.exists_parts (h : Escapes text pattern) (htext : ∀ c ∈ text, isSymbol c = true) :
    ∃ parts : List (List Lexeme × Regex), Spelling pattern (parts.flatMap Prod.fst) ∧
      parts.map Prod.snd = Regex.leaves text ∧
        ∀ part ∈ parts, Derives 0 .suffix part.1 part.2 := by
  induction h with
  | nil => exact ⟨[], .nil, rfl, by simp⟩
  | @bare c text pattern hoperator hbackslash _ ih =>
    rcases List.forall_mem_cons.1 htext with ⟨hc, hrest⟩
    rcases ih hrest with ⟨parts, hspelling, htrees, hparts⟩
    -- A bare character is no operator, so that it stands for itself.
    have hlexeme : bareLexeme c = .plain c := by simp [bareLexeme, hoperator]
    refine ⟨([bareLexeme c], .character [c]) :: parts, .bare hc hbackslash hspelling,
      congrArg _ htrees, List.forall_mem_cons.2 ⟨?_, hparts⟩⟩
    rw [hlexeme]
    exact (Derives.plain c).suffix_of_term
  -- Behind a backslash every character stands for itself.
  | @escaped c text pattern _ ih =>
    rcases List.forall_mem_cons.1 htext with ⟨hc, hrest⟩
    rcases ih hrest with ⟨parts, hspelling, htrees, hparts⟩
    exact ⟨([.escaped c], .character [c]) :: parts, .escaped hc hspelling, congrArg _ htrees,
      List.forall_mem_cons.2 ⟨(Derives.escaped c).suffix_of_term, hparts⟩⟩

/-- The pattern of a text is read as the row of the characters of the text. -/
theorem Escapes.parse_eq (h : Escapes text pattern) (htext : ∀ c ∈ text, isSymbol c = true) :
    parse pattern = .ok (inRow (Regex.leaves text)) := by
  rcases h.exists_parts htext with ⟨parts, hspelling, htrees, hparts⟩
  rw [← htrees]
  exact parse_eq_ok_iff.2
    ⟨_, hspelling, (Derives.expression parts hparts).branches_of_expression false⟩

/-- A pattern that writes a text of symbols has a matcher. Its automaton is the chain of the text,
    and it matches that text and no other. -/
theorem ofPattern_eq_chain (htext : ∀ c ∈ text, isSymbol c = true) (h : Escapes text pattern) :
    Matcher.ofPattern pattern = .ok ⟨pattern, .chain text⟩ ∧
      ∀ other, (Matcher.mk pattern (.chain text)).run other = true ↔ other = text := by
  rcases exists_thompson (h.parse_eq htext) with ⟨A, hA, hwell, hlanguage⟩
  -- The tree is a row of characters, whose only word is the text.
  have hmin : A.minimize = .chain text := by
    refine Automaton.minimize_eq_chain hwell htext fun other => ?_
    rw [hlanguage, Regex.mem_language_row]
  constructor
  · rw [Matcher.ofPattern, Matcher.build, hA, ← hmin]
    rfl
  · intro other
    rw [Matcher.run_eq_true_iff _ (Automaton.isDeterministic_chain text) rfl,
      Automaton.mem_language_chain htext]

/-- A text with operators, a hyphen, a backslash and a line break. -/
def knottyText : List Char := ['a', '+', '-', ']', '\\', '\n']

/-- A pattern that writes this text, with a backslash also where none is needed. -/
def knottyPattern : List Char :=
  ['\\', 'a', '\\', '+', '-', '\\', ']', '\\', '\\', '\n']

theorem ofPattern_eq_chain_knottyText :
    (∀ c ∈ knottyText, isSymbol c = true) ∧ Escapes knottyText knottyPattern ∧
    Matcher.ofPattern knottyPattern = .ok ⟨knottyPattern, .chain knottyText⟩ ∧
    ∀ other, (Matcher.mk knottyPattern (.chain knottyText)).run other = true ↔
      other = knottyText := by
  have htext : ∀ c ∈ knottyText, isSymbol c = true := by simp [knottyText, isSymbol]
  have hescapes : Escapes knottyText knottyPattern :=
    .escaped (.escaped (.bare rfl (by decide) (.escaped (.escaped
      (.bare rfl (by decide) .nil)))))
  exact ⟨htext, hescapes, ofPattern_eq_chain htext hescapes⟩

end Pattern

end FiniteState
