import FiniteState.Proofs.Grouping

/-!
# Places in a Pattern

Where a pattern cannot be read, the message names a place, and there the pattern has to hold what
the message is about. A place is given by what stands before it: the lexemes that are spelt up to
it. That makes it the start of a token, and it tells an operator from the same character behind a
backslash, which a look at the one character would not.

What stands before a place also tells whether it lies in a character class, where operators lose
their meaning. A bracket opens a class only if every class opened before it has been closed, so
`Closed` and `InClass` follow the lexemes from the beginning, and a message about an operator is to
the point only where no class is open.

A cursor is behind the lexemes that the tokenizer hands on from the beginning of the pattern to
there. By `Reads.exists_part` these are spelt before its next token.

## Main definitions

* `Pattern.Closed`, `Pattern.InClass`: Whether lexemes leave a character class open.
* `Pattern.Blames`: What stands behind lexemes that a message is about.
* `Pattern.Points`: An error names a place that its message is about.
* `Pattern.Cursor.Behind`: The lexemes of a pattern that a cursor is behind.

## Theorems

* `Pattern.Reads.exists_part`: The lexemes between two cursors are spelt between them.
* `Pattern.Points.position_lt`: The place is one of the pattern.
* `Pattern.Cursor.Behind.points_bare`, `Pattern.Cursor.Behind.points_order`: Errors at the next
  token of a cursor.
* `Pattern.Cursor.Behind.points_readToken`: Errors of the tokenizer.
-/

namespace FiniteState

namespace Pattern

/-- Every character class that lexemes open they close. -/
inductive Closed : List Lexeme → Prop
  | nil : Closed []
  | snoc {lexemes : List Lexeme} {l : Lexeme} (rest : Closed lexemes) (hl : l ≠ .operator '[') :
      Closed (lexemes ++ [l])
  | characterClass {lexemes items : List Lexeme} {ranges : List (Char × Char)}
      (rest : Closed lexemes) (hitems : Items items ranges) :
      Closed (lexemes ++ .operator '[' :: (items ++ [.operator ']']))

/-- The last character class that lexemes open is not closed, and no item of it is incomplete. -/
def InClass (lexemes : List Lexeme) : Prop :=
  ∃ before items ranges, Closed before ∧ Items items ranges ∧
    lexemes = before ++ .operator '[' :: items

/-- What stands in a pattern behind lexemes is what a message is about. -/
inductive Blames : String → List Lexeme → List Char → Prop
  | invalidEscape (lexemes : List Lexeme) : Blames "invalid escape sequence" lexemes ['\\']
  | unsupported (lexemes : List Lexeme) (c : Char) (rest : List Char)
      (hc : ¬ (1 ≤ c.toNat ∧ c.toNat ≤ 255)) :
      Blames ("unsupported character " ++ Text.quoted (String.singleton c)) lexemes (c :: rest)
  | unsupportedEscape (lexemes : List Lexeme) (c : Char) (rest : List Char)
      (hc : ¬ (1 ≤ c.toNat ∧ c.toNat ≤ 255)) :
      Blames ("unsupported character " ++ Text.quoted (String.singleton c)) lexemes
        ('\\' :: c :: rest)
  | unexpected {lexemes : List Lexeme} (hclosed : Closed lexemes) {c : Char}
      (hc : c ∈ [')', '+', '*', '?', ']', '|']) (rest : List Char) :
      Blames ("unexpected character '" ++ String.singleton c ++ "'") lexemes (c :: rest)
  | tooDeep {lexemes : List Lexeme} (hclosed : Closed lexemes) {c : Char}
      (hc : c ∈ ['(', '+', '*', '?']) (rest : List Char) :
      Blames "pattern nested too deeply" lexemes (c :: rest)
  | unmatchedParenthesis {lexemes : List Lexeme} (hclosed : Closed lexemes) (rest : List Char) :
      Blames "unmatched parentheses" lexemes ('(' :: rest)
  | unmatchedBracket {lexemes : List Lexeme} (hclosed : Closed lexemes) (rest : List Char) :
      Blames "unmatched brackets" lexemes ('[' :: rest)
  | hyphen {lexemes : List Lexeme} (hclass : InClass lexemes) (rest : List Char) :
      Blames "invalid character set" lexemes ('-' :: rest)
  | upperEnd {lexemes : List Lexeme} (hclass : InClass lexemes) {l : Lexeme} (hl : StartsItem l)
      (rest : List Char) : Blames "invalid character set" (lexemes ++ [l, .plain '-']) (']' :: rest)
  | order {lexemes : List Lexeme} (hclass : InClass lexemes) {l u : Lexeme} {low high : Char}
      (hlow : Shows l low) (hhigh : Shows u high) (hlt : high < low) {ends : List Char}
      (hends : Spelling ends [l, .plain '-', u]) (rest : List Char) :
      Blames "invalid character set" lexemes (ends ++ rest)

/-- An error names a place of a pattern that its message is about. -/
def Points (pattern : List Char) (error : Error) : Prop :=
  ∃ before lexemes text, pattern = before ++ text ∧ Spelling before lexemes ∧
    error.position = before.length ∧ Blames error.problem.message lexemes text

theorem Items.append {lexemes others : List Lexeme} {ranges ranges' : List (Char × Char)}
    (h : Items lexemes ranges) (hothers : Items others ranges') :
    Items (lexemes ++ others) (ranges ++ ranges') := by
  induction h with
  | nil => exact hothers
  | symbol hstart hc _ ih => exact .symbol hstart hc ih
  | range hstart hlow hupper hhigh hle _ ih => exact .range hstart hlow hupper hhigh hle ih

/-- Another item leaves the class open. -/
theorem InClass.append {lexemes items : List Lexeme} {ranges : List (Char × Char)}
    (h : InClass lexemes) (hitems : Items items ranges) : InClass (lexemes ++ items) := by
  rcases h with ⟨before, inner, ranges', hclosed, hinner, rfl⟩
  refine ⟨before, inner ++ items, _, hclosed, hinner.append hitems, ?_⟩
  rw [List.append_assoc, List.cons_append]

/-- No message is about what stands behind the end. -/
theorem Blames.ne_nil {message : String} {lexemes : List Lexeme} {text : List Char}
    (h : Blames message lexemes text) : text ≠ [] := by
  cases h with
  | order _ _ _ _ hends _ => cases hends <;> simp
  | _ => simp

/-- The place is one of the pattern. -/
theorem Points.position_lt {pattern : List Char} {error : Error} (h : Points pattern error) :
    error.position < pattern.length := by
  rcases h with ⟨before, lexemes, text, rfl, -, hposition, hblames⟩
  have hpos := List.length_pos_iff.2 hblames.ne_nil
  rw [hposition, List.length_append]
  omega

/-- Reading moves the position on by as many characters as it takes away. -/
theorem readToken_length (pos : Nat) (text : List Char) :
    pos ≤ (readToken pos text).pos ∧
      (readToken pos text).pos + (readToken pos text).rest.length = pos + text.length := by
  unfold readToken
  split <;> constructor <;> simp only [List.length_cons, List.length_nil] <;> omega

/-- A token that is not the end is spelt where it is read. -/
theorem exists_part_of_readToken {pos pos' : Nat} {text rest : List Char} {token : Token}
    (h : readToken pos text = ⟨.ok token, pos', rest⟩) (hend : token.lexeme ≠ .finish) :
    ∃ part, text = part ++ rest ∧ Spelling part [token.lexeme] ∧ pos' = pos + part.length := by
  rcases readToken_eq_ok_iff.1 h with ⟨-, rfl, -⟩ | ⟨c, rfl, hc, hsymbol, rfl, rfl⟩ |
    ⟨c, rfl, hsymbol, rfl, rfl⟩
  · exact absurd rfl hend
  · exact ⟨[c], rfl, .bare hsymbol hc .nil, rfl⟩
  · exact ⟨['\\', c], rfl, .escaped hsymbol .nil, rfl⟩

/-- The lexemes between two cursors are spelt between them. -/
theorem Reads.exists_part {cursor after : Cursor} {lexemes : List Lexeme} {pos : Nat}
    {text : List Char} (h : Reads cursor lexemes after)
    (hread : readToken pos text = ⟨.ok cursor.token, cursor.pos, cursor.rest⟩) :
    ∃ part rest, text = part ++ rest ∧ Spelling part lexemes ∧
      readToken (pos + part.length) rest = ⟨.ok after.token, after.pos, after.rest⟩ := by
  induction h generalizing pos text with
  | nil => exact ⟨[], text, rfl, .nil, hread⟩
  | cons hend hadvance _ ih =>
    -- The first lexeme is spelt up to where the next cursor has been read from.
    rcases exists_part_of_readToken hread hend with ⟨first, rfl, hfirst, hpos⟩
    rcases ih (advance_eq_ok_iff.1 hadvance).2.2 with ⟨part, rest, hrest, hpart, hafter⟩
    refine ⟨first ++ part, rest, by rw [hrest, List.append_assoc], hfirst.append hpart, ?_⟩
    rw [List.length_append, ← Nat.add_assoc, ← hpos]
    exact hafter

theorem Reads.pos_le {cursor after : Cursor} {lexemes : List Lexeme}
    (h : Reads cursor lexemes after) : cursor.pos ≤ after.pos := by
  induction h with
  | nil => exact le_refl _
  | @cons cursor next _ _ _ hadvance _ ih =>
    have hle := (readToken_length cursor.pos cursor.rest).1
    rw [(advance_eq_ok_iff.1 hadvance).2.2] at hle
    exact hle.trans ih

/-- Without a backslash a character is spelt by itself. -/
theorem Spelling.eq_of_bare {part : List Char} {l : Lexeme} {c : Char} (h : Spelling part [l])
    (hl : l = .operator c ∨ l = .plain c) : part = [c] := by
  generalize hlexemes : [l] = lexemes at h
  cases h with
  | nil => exact absurd hlexemes (by simp)
  | @bare d _ _ _ _ rest =>
    rcases List.cons.inj hlexemes with ⟨rfl, rfl⟩
    cases rest
    -- Whether it is an operator or not, the lexeme has the character that it is spelt by.
    unfold bareLexeme at hl
    split at hl <;> simp_all
  | escaped _ _ =>
    rw [(List.cons.inj hlexemes).1] at hl
    simp at hl

/-- The tokenizer fails at what its message is about, whatever stands before. -/
theorem blames_of_readToken {pos pos' : Nat} {text rest : List Char} {error : Error}
    (h : readToken pos text = ⟨.error error, pos', rest⟩) (lexemes : List Lexeme) :
    error.position = pos ∧ Blames error.problem.message lexemes text := by
  -- A character is refused for what it is, with a backslash before it or without.
  have hsupported : ∀ lexeme c, supported lexeme c pos = .error error →
      error = ⟨.unsupported c, pos⟩ ∧ ¬ (1 ≤ c.toNat ∧ c.toNat ≤ 255) := by
    intro lexeme c hfail
    unfold supported at hfail
    split at hfail
    next => exact absurd hfail (by simp)
    next hc => exact ⟨(Except.error.inj hfail).symm, fun hle => hc (isSymbol_eq_true_iff.2 hle)⟩
  unfold readToken at h
  split at h <;> simp only [Reading.mk.injEq, Except.error.injEq, reduceCtorEq, false_and] at h
  next =>
    rcases h with ⟨rfl, -⟩
    exact ⟨rfl, .invalidEscape lexemes⟩
  next c rest' =>
    rcases hsupported _ _ h.1 with ⟨rfl, hc⟩
    exact ⟨rfl, .unsupportedEscape lexemes c rest' hc⟩
  next c rest' _ _ =>
    rcases hsupported _ _ h.1 with ⟨rfl, hc⟩
    exact ⟨rfl, .unsupported lexemes c rest' hc⟩

namespace Cursor

/-- A cursor is where the tokenizer gets to from the beginning of a pattern, with lexemes handed on
    by then. -/
def Behind (pattern : List Char) (lexemes : List Lexeme) (cursor : Cursor) : Prop :=
  ∃ start, Cursor.start pattern cursor.depth = .ok start ∧ Reads start lexemes cursor

namespace Behind

variable {pattern : List Char} {lexemes others : List Lexeme} {cursor after : Cursor}

/-- The lexemes are spelt before the next token. -/
theorem exists_split (h : cursor.Behind pattern lexemes) : ∃ before text,
    pattern = before ++ text ∧ Spelling before lexemes ∧
      readToken before.length text = ⟨.ok cursor.token, cursor.pos, cursor.rest⟩ := by
  rcases h with ⟨start, hstart, hreads⟩
  rcases hreads.exists_part (start_eq_ok_iff.1 hstart).2 with ⟨before, text, hpattern, hspelling, h⟩
  rw [Nat.zero_add] at h
  exact ⟨before, text, hpattern, hspelling, h⟩

theorem append (h : cursor.Behind pattern lexemes) (hreads : Reads cursor others after) :
    after.Behind pattern (lexemes ++ others) := by
  rcases h with ⟨start, hstart, hlexemes⟩
  rw [← hreads.depth_eq] at hstart
  exact ⟨start, hstart, reads_append_iff.2 ⟨cursor, hlexemes, hreads⟩⟩

/-- What a cursor is behind does not depend on the depth of groups. -/
theorem withDepth (h : cursor.Behind pattern lexemes) (depth : Int) :
    Behind pattern lexemes { cursor with depth := depth } := by
  rcases h with ⟨start, hstart, hreads⟩
  refine ⟨{ start with depth := depth }, ?_, hreads.withDepth depth⟩
  exact start_eq_ok_iff.2 ⟨rfl, (start_eq_ok_iff.1 hstart).2⟩

/-- All of the pattern stands before the position or behind it. -/
theorem pos_add_length (h : cursor.Behind pattern lexemes) :
    cursor.pos + cursor.rest.length = pattern.length := by
  rcases h.exists_split with ⟨before, text, rfl, -, hread⟩
  have hlength := (readToken_length before.length text).2
  rw [hread] at hlength
  rw [List.length_append]
  exact hlength

theorem pos_le (h : cursor.Behind pattern lexemes) : cursor.pos ≤ pattern.length := by
  have hlength := h.pos_add_length
  omega

/-- An operator comes next only where one of the nine does. -/
theorem isOperator_of_operator (h : cursor.Behind pattern lexemes) {c : Char}
    (hc : cursor.token.lexeme = .operator c) : isOperator c = true := by
  rcases h.exists_split with ⟨before, text, -, -, hread⟩
  rcases readToken_eq_ok_iff.1 hread with ⟨-, htoken, -⟩ | ⟨d, -, -, -, htoken, -⟩ |
    ⟨d, -, -, htoken, -⟩ <;> rw [htoken] at hc
  · exact absurd hc (by simp)
  · unfold bareLexeme at hc
    split at hc
    next hd =>
      rw [← Lexeme.operator.inj hc]
      exact hd
    next => exact absurd hc (by simp)
  · exact absurd hc (by simp)

/-- An error at a token without a backslash is to the point if it is about its character. -/
theorem points_bare (h : cursor.Behind pattern lexemes) {c : Char}
    (hc : cursor.token.lexeme = .operator c ∨ cursor.token.lexeme = .plain c) {problem : Problem}
    (hblames : ∀ rest, Blames problem.message lexemes (c :: rest)) :
    Points pattern ⟨problem, cursor.token.position⟩ := by
  have hend : cursor.token.lexeme ≠ .finish := by
    rcases hc with hc | hc <;> simp [hc]
  rcases h.exists_split with ⟨before, text, rfl, hspelling, hread⟩
  rcases exists_part_of_readToken hread hend with ⟨part, rfl, hpart, -⟩
  refine ⟨before, lexemes, _, rfl, hspelling, (readToken_cases hread).1, ?_⟩
  -- Without a backslash the token is its character.
  rw [hpart.eq_of_bare hc]
  exact hblames cursor.rest

/-- Where the ends of a range are exchanged, the lower end is at fault. -/
theorem points_order (h : cursor.Behind pattern lexemes) (hclass : InClass lexemes) {l u : Lexeme}
    {low high : Char} (hreads : Reads cursor [l, .plain '-', u] after) (hlow : Shows l low)
    (hhigh : Shows u high) (hlt : high < low) :
    Points pattern ⟨.invalidSet, cursor.token.position⟩ := by
  rcases h.exists_split with ⟨before, text, rfl, hspelling, hread⟩
  rcases hreads.exists_part hread with ⟨ends, rest, rfl, hends, -⟩
  exact ⟨before, lexemes, _, rfl, hspelling, (readToken_cases hread).1,
    .order hclass hlow hhigh hlt hends rest⟩

/-- Where the tokenizer fails, it points there. -/
theorem points_readToken (h : cursor.Behind pattern lexemes) {pos' : Nat} {rest : List Char}
    {error : Error} (hread : readToken cursor.pos cursor.rest = ⟨.error error, pos', rest⟩) :
    Points pattern error := by
  rcases h.exists_split with ⟨before, text, rfl, hspelling, hcursor⟩
  by_cases hend : cursor.token.lexeme = .finish
  · -- Behind the end there is nothing to fail at.
    rcases readToken_eq_ok_iff.1 hcursor with ⟨-, -, -, hrest⟩ | ⟨c, -, -, -, htoken, -⟩ |
      ⟨c, -, -, htoken, -⟩
    · rw [hrest] at hread
      simp [readToken] at hread
    · rw [htoken] at hend
      exact absurd hend (bareLexeme_ne_finish c)
    · rw [htoken] at hend
      exact absurd hend (by simp)
  · -- The next token has been read, so it is among what is spelt before the failure.
    rcases exists_part_of_readToken hcursor hend with ⟨part, rfl, hpart, hpos⟩
    rcases blames_of_readToken hread (lexemes ++ [cursor.token.lexeme]) with ⟨hposition, hblames⟩
    refine ⟨before ++ part, _, cursor.rest, by rw [List.append_assoc], hspelling.append hpart, ?_,
      hblames⟩
    rw [hposition, hpos, List.length_append]

end Behind

end Cursor

end Pattern

end FiniteState
