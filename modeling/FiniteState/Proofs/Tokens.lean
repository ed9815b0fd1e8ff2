import FiniteState.Proofs.Places

/-!
# All Tokens of a Pattern

The tokens of a pattern keep all of it. Written back one after another, they are the pattern again,
and each of them stands where the text written before it ends. Where the tokenizer fails, this holds
of the tokens up to there, and what stands there is one of three things that no token is made of.

Whether there is such a place can be told without the tokenizer. Every backslash belongs together
with the character after it, beginning from the left, which leaves no choice: in a run of
backslashes every second one is a character that another one escapes. The tokenizer fails exactly if
a piece of this pairing cannot be read, be it at the very end of the pattern.

The function that lists the tokens works in rounds, and the parser takes them from a cursor, one at
a time and with one token of lookahead. `Scans` says what both have in common. It has one case for
each way in which a text goes on, so everything about tokens is shown by induction on it.

## Main definitions

* `Pattern.Piece`, `Pattern.Paired`: Backslashes paired with the characters after them.
* `Pattern.Stuck`: What a text begins with where no token can be read.
* `Pattern.Scans`: The tokens of a text and the error that ends them.
* `Pattern.Drains`, `Pattern.Lexes`: The tokens that a cursor hands out until the pattern ends.
* `Pattern.HandsOn`: The tokens that a cursor gives away before it fails.
* `Pattern.Transcribes`: Tokens that stand for a text.

## Theorems

* `Pattern.scans_scanFrom`: The rounds of the tokenizer suffice.
* `Pattern.Scans.transcribes`: The tokens of a text stand for all of it that has been read.
* `Pattern.Scans.fails_iff`: The tokenizer fails if a piece cannot be read.
* `Pattern.lexes_iff`: The parser is handed the same tokens, and the same error.
* `Pattern.handsOn_scan`: The tokens that are given away are those before the last one.
* `Pattern.scan_lossless`: No token is lost or made up, and the tokenizer fails where it should.
-/

namespace FiniteState

namespace Pattern

/-- What is left of a text when every backslash is paired with the character after it. -/
inductive Piece
  /-- A character without a backslash. -/
  | bare (c : Char)
  /-- A backslash and the character after it. -/
  | pair (c : Char)
  /-- A backslash with nothing after it. -/
  | lone

/-- The pieces of a text, when backslashes are paired from the left. -/
inductive Paired : List Char → List Piece → Prop
  | nil : Paired [] []
  | bare {c : Char} {text : List Char} {pieces : List Piece} (hc : c ≠ '\\')
      (rest : Paired text pieces) : Paired (c :: text) (.bare c :: pieces)
  | pair {c : Char} {text : List Char} {pieces : List Piece} (rest : Paired text pieces) :
      Paired ('\\' :: c :: text) (.pair c :: pieces)
  | lone : Paired ['\\'] [.lone]

/-- No token is made of a piece: its character is not a symbol, or there is none. -/
def Piece.Unreadable : Piece → Prop
  | bare c => ¬ (1 ≤ c.toNat ∧ c.toNat ≤ 255)
  | pair c => ¬ (1 ≤ c.toNat ∧ c.toNat ≤ 255)
  | lone => True

/-- What a text begins with where no token can be read, and the problem that is reported there. -/
inductive Stuck : List Char → Problem → Prop
  | lone : Stuck ['\\'] .invalidEscape
  | bare {c : Char} (hc : ¬ (1 ≤ c.toNat ∧ c.toNat ≤ 255)) (rest : List Char) :
      Stuck (c :: rest) (.unsupported c)
  | pair {c : Char} (hc : ¬ (1 ≤ c.toNat ∧ c.toNat ≤ 255)) (rest : List Char) :
      Stuck ('\\' :: c :: rest) (.unsupported c)

/-- The tokens of a text that begins at a position, and the error that ends them if they do not
    reach the end of the text. -/
inductive Scans : Nat → List Char → Scan → Prop
  | finish (pos : Nat) : Scans pos [] ⟨[⟨.finish, pos⟩], none⟩
  | stuck {text : List Char} {problem : Problem} (pos : Nat) (h : Stuck text problem) :
      Scans pos text ⟨[], some ⟨problem, pos⟩⟩
  | token {pos : Nat} {part text : List Char} {l : Lexeme} {s : Scan} (hpart : Spelling part [l])
      (rest : Scans (pos + part.length) text s) :
      Scans pos (part ++ text) ⟨⟨l, pos⟩ :: s.tokens, s.error?⟩

/-- The tokens that a cursor hands out, one after another, until the pattern ends or the token after
    the next one cannot be read. That error comes when the next token is to be replaced, so the next
    token is listed before it. -/
inductive Drains : Cursor → Scan → Prop
  | finish {cursor : Cursor} (hend : cursor.token.lexeme = .finish) :
      Drains cursor ⟨[cursor.token], none⟩
  | stuck {cursor after : Cursor} {error : Error} (hend : cursor.token.lexeme ≠ .finish)
      (hadvance : advance cursor = .error error after) : Drains cursor ⟨[cursor.token], some error⟩
  | token {cursor next : Cursor} {s : Scan} (hend : cursor.token.lexeme ≠ .finish)
      (hadvance : advance cursor = .ok cursor.token next) (rest : Drains next s) :
      Drains cursor ⟨cursor.token :: s.tokens, s.error?⟩

/-- The tokens that are handed out from the beginning of a pattern. If there is no first one, there
    is no cursor either. -/
inductive Lexes (pattern : List Char) : Scan → Prop
  | stuck {error : Error} (h : Cursor.start pattern 0 = .error error) :
      Lexes pattern ⟨[], some error⟩
  | cursor {cursor : Cursor} {s : Scan} (h : Cursor.start pattern 0 = .ok cursor)
      (rest : Drains cursor s) : Lexes pattern s

/-- The tokens that a cursor hands on, one after another. A token is handed on once the one after it
    has been read, so the last one before an error never is. -/
inductive HandsOn : Cursor → List Token → Prop
  | finish {cursor : Cursor} (hend : cursor.token.lexeme = .finish) :
      HandsOn cursor [cursor.token]
  | stuck {cursor after : Cursor} {error : Error} (hend : cursor.token.lexeme ≠ .finish)
      (hadvance : advance cursor = .error error after) : HandsOn cursor []
  | token {cursor next : Cursor} {tokens : List Token} (hend : cursor.token.lexeme ≠ .finish)
      (hadvance : advance cursor = .ok cursor.token next) (rest : HandsOn next tokens) :
      HandsOn cursor (cursor.token :: tokens)

/-- Tokens stand for a text: they are written as the text, each of them where those before it end,
    and those that are operators are the operator characters without a backslash. -/
structure Transcribes (tokens : List Token) (text : List Char) : Prop where
  textOf_eq : textOf (tokens.map Token.lexeme) = text
  position_eq : ∀ before token after, tokens = before ++ token :: after →
    token.position = (textOf (before.map Token.lexeme)).length
  increasing : tokens.Pairwise fun token later => token.position < later.position
  operator_iff : ∀ token ∈ tokens, ∀ c, token.lexeme = .operator c ↔
    token.symbol? = some c ∧ token.lexeme ≠ .escaped c ∧
      c ∈ ['+', '*', '?', '.', '|', '(', ')', '[', ']']

/-! ### Reading one token -/

section Token

variable {pos : Nat} {text part : List Char} {l : Lexeme}

theorem not_isSymbol_iff {c : Char} :
    ¬ isSymbol c = true ↔ ¬ (1 ≤ c.toNat ∧ c.toNat ≤ 255) :=
  not_congr isSymbol_eq_true_iff

/-- A lexeme is spelt by its character, or by a backslash and its character. -/
theorem spelling_single_iff :
    Spelling part [l] ↔ ∃ c, isSymbol c = true ∧
      ((c ≠ '\\' ∧ part = [c] ∧ l = bareLexeme c) ∨ (part = ['\\', c] ∧ l = .escaped c)) := by
  constructor
  · intro h
    -- The list has to be a variable, so that the cases find its one member.
    generalize hlexemes : [l] = lexemes at h
    cases h with
    | nil => exact absurd hlexemes (by simp)
    | @bare c _ _ hsymbol hc rest =>
      rcases List.cons.inj hlexemes with ⟨rfl, rfl⟩
      cases rest
      exact ⟨c, hsymbol, Or.inl ⟨hc, rfl, rfl⟩⟩
    | @escaped c _ _ hsymbol rest =>
      rcases List.cons.inj hlexemes with ⟨rfl, rfl⟩
      cases rest
      exact ⟨c, hsymbol, Or.inr ⟨rfl, rfl⟩⟩
  · rintro ⟨c, hsymbol, ⟨hc, rfl, rfl⟩ | ⟨rfl, rfl⟩⟩
    · exact .bare hsymbol hc .nil
    · exact .escaped hsymbol .nil

/-- What is spelt by one lexeme is what the lexeme is written as. -/
theorem text_of_spelling (h : Spelling part [l]) : l.text = part := by
  rcases spelling_single_iff.1 h with ⟨c, -, ⟨-, rfl, rfl⟩ | ⟨rfl, rfl⟩⟩
  · unfold bareLexeme
    split <;> rfl
  · rfl

theorem length_pos_of_spelling (h : Spelling part [l]) : 0 < part.length := by
  rcases spelling_single_iff.1 h with ⟨c, -, ⟨-, rfl, -⟩ | ⟨rfl, -⟩⟩
  · exact Nat.zero_lt_one
  · exact Nat.zero_lt_two

theorem ne_finish_of_spelling (h : Spelling part [l]) : l ≠ .finish := by
  rcases spelling_single_iff.1 h with ⟨c, -, ⟨-, -, rfl⟩ | ⟨-, rfl⟩⟩
  · exact bareLexeme_ne_finish c
  · simp

/-- The token that a text begins with is read from it. -/
theorem readToken_of_spelling (h : Spelling part [l]) (pos : Nat) (text : List Char) :
    readToken pos (part ++ text) = ⟨.ok ⟨l, pos⟩, pos + part.length, text⟩ := by
  rcases spelling_single_iff.1 h with ⟨c, hsymbol, ⟨hc, rfl, rfl⟩ | ⟨rfl, rfl⟩⟩
  · exact readToken_eq_ok_iff.2 (Or.inr (Or.inl ⟨c, rfl, hc, hsymbol, rfl, rfl⟩))
  · exact readToken_eq_ok_iff.2 (Or.inr (Or.inr ⟨c, rfl, hsymbol, rfl, rfl⟩))

/-- No token is read where a text is stuck. -/
theorem readToken_of_stuck {problem : Problem} (h : Stuck text problem) (pos : Nat) :
    (readToken pos text).outcome = .error ⟨problem, pos⟩ := by
  cases h with
  | lone => rfl
  | @bare c hc rest =>
    have hbackslash : c ≠ '\\' := by
      rintro rfl
      exact hc (by decide)
    rw [readToken_bare hbackslash]
    exact if_neg (not_isSymbol_iff.2 hc)
  | pair hc rest => exact if_neg (not_isSymbol_iff.2 hc)

/-- A text is empty, begins with a token, or is stuck. -/
theorem text_cases (text : List Char) :
    text = [] ∨ (∃ part l rest, text = part ++ rest ∧ Spelling part [l]) ∨
      ∃ problem, Stuck text problem := by
  cases text with
  | nil => exact Or.inl rfl
  | cons c rest =>
    by_cases hc : c = '\\'
    · subst hc
      cases rest with
      | nil => exact Or.inr (Or.inr ⟨_, .lone⟩)
      | cons d rest =>
        by_cases hsymbol : isSymbol d = true
        · exact Or.inr (Or.inl ⟨['\\', d], _, rest, rfl, .escaped hsymbol .nil⟩)
        · exact Or.inr (Or.inr ⟨_, .pair (not_isSymbol_iff.1 hsymbol) rest⟩)
    -- A character that is no backslash stands for itself, if it is a symbol.
    · by_cases hsymbol : isSymbol c = true
      · exact Or.inr (Or.inl ⟨[c], _, rest, rfl, .bare hsymbol hc .nil⟩)
      · exact Or.inr (Or.inr ⟨_, .bare (not_isSymbol_iff.1 hsymbol) rest⟩)

/-- The rounds of the tokenizer suffice if there is one more of them than characters. -/
theorem scans_scanFrom {rounds : Nat} (h : text.length < rounds) (pos : Nat) :
    Scans pos text (scanFrom rounds pos text) := by
  induction rounds generalizing pos text with
  | zero => exact absurd h (Nat.not_lt_zero _)
  | succ rounds ih =>
    rcases text_cases text with rfl | ⟨part, l, rest, rfl, hpart⟩ | ⟨problem, hstuck⟩
    · exact .finish pos
    · have hend : (⟨l, pos⟩ : Token).atEnd = false := by
        rw [Bool.eq_false_iff]
        exact mt atEnd_eq_true_iff.1 (ne_finish_of_spelling hpart)
      -- A token takes at least one character, so one round fewer suffices for the rest.
      have hrest : rest.length < rounds := by
        have hpos := length_pos_of_spelling hpart
        rw [List.length_append] at h
        omega
      simp only [scanFrom, readToken_of_spelling hpart, hend]
      exact .token hpart (ih hrest _)
    · simp only [scanFrom, readToken_of_stuck hstuck]
      exact .stuck pos hstuck

end Token

/-! ### What the tokens stand for -/

namespace Scans

variable {pos : Nat} {text : List Char} {s : Scan}

/-- All tokens lie at the beginning of the text or behind it. -/
theorem position_le (h : Scans pos text s) : ∀ token ∈ s.tokens, pos ≤ token.position := by
  induction h with
  | finish pos => exact List.forall_mem_singleton.2 (le_refl pos)
  | stuck pos _ => exact List.forall_mem_nil _
  | @token pos part text l s hpart _ ih =>
    refine List.forall_mem_cons.2 ⟨le_refl pos, fun token htoken => ?_⟩
    exact (Nat.le_add_right _ _).trans (ih token htoken)

theorem increasing (h : Scans pos text s) :
    s.tokens.Pairwise fun token later => token.position < later.position := by
  induction h with
  | finish pos => exact List.pairwise_singleton _ _
  | stuck pos _ => exact .nil
  | @token pos part text l s hpart hrest ih =>
    refine List.pairwise_cons.2 ⟨fun token htoken => ?_, ih⟩
    -- The tokens that follow begin behind the part of the first one, which is not empty.
    have hle := hrest.position_le token htoken
    have hpos := length_pos_of_spelling hpart
    change pos < token.position
    omega

theorem position_eq (h : Scans pos text s) {before after : List Token} {token : Token}
    (htokens : s.tokens = before ++ token :: after) :
    token.position = pos + (textOf (before.map Token.lexeme)).length := by
  induction h generalizing before with
  | finish pos =>
    cases before with
    | nil =>
      obtain ⟨rfl, -⟩ := List.cons.inj htokens
      rfl
    | cons first before => simp at htokens
  | stuck pos _ => simp at htokens
  | @token pos part text l s hpart _ ih =>
    cases before with
    | nil =>
      obtain ⟨rfl, -⟩ := List.cons.inj htokens
      rfl
    | cons first before =>
      obtain ⟨rfl, hrest⟩ := List.cons.inj htokens
      -- The token in front takes as many characters as its text has.
      have hlength : (textOf ((⟨l, pos⟩ :: before).map Token.lexeme)).length =
          part.length + (textOf (before.map Token.lexeme)).length := by
        rw [List.map_cons, textOf, List.flatMap_cons, text_of_spelling hpart, List.length_append]
        rfl
      rw [ih hrest, hlength, Nat.add_assoc]

/-- The operators among the tokens are the nine characters, without a backslash. -/
theorem operator_iff (h : Scans pos text s) : ∀ token ∈ s.tokens, ∀ c,
    token.lexeme = .operator c ↔ token.symbol? = some c ∧ token.lexeme ≠ .escaped c ∧
      c ∈ ['+', '*', '?', '.', '|', '(', ')', '[', ']'] := by
  induction h with
  | finish pos => simp [Token.symbol?]
  | stuck pos _ => exact List.forall_mem_nil _
  | @token pos part text l s hpart _ ih =>
    refine List.forall_mem_cons.2 ⟨fun c => ?_, ih⟩
    -- An escaped lexeme is no operator, and a bare one is if its character is among the nine.
    rcases spelling_single_iff.1 hpart with ⟨d, -, ⟨-, -, rfl⟩ | ⟨-, rfl⟩⟩
    · have hnine : isOperator d = true ↔ d ∈ ['+', '*', '?', '.', '|', '(', ')', '[', ']'] :=
        List.contains_iff_mem
      unfold bareLexeme
      split
      next hoperator =>
        simp only [Token.symbol?, Lexeme.operator.injEq, Option.some.injEq, ne_eq, reduceCtorEq,
          not_false_eq_true, true_and]
        exact ⟨fun hc => ⟨hc, hc ▸ hnine.1 hoperator⟩, And.left⟩
      next hoperator =>
        simp only [Token.symbol?, Option.some.injEq, ne_eq, reduceCtorEq, not_false_eq_true,
          true_and, false_iff, not_and]
        rintro rfl hc
        exact hoperator (hnine.2 hc)
    · simp only [Token.symbol?, Option.some.injEq, ne_eq, Lexeme.escaped.injEq, reduceCtorEq,
        false_iff, not_and]
      exact fun hc hne => absurd hc hne

/-- All of the text is written by the tokens up to its end, or up to a place where it is stuck. -/
theorem exists_split (h : Scans pos text s) :
    (s.error? = none ∧ textOf (s.tokens.map Token.lexeme) = text ∧
      ∃ body, s.tokens = body ++ [⟨.finish, pos + text.length⟩] ∧
        ∀ token ∈ body, token.lexeme ≠ .finish) ∨
    ∃ part rest problem, s.error? = some ⟨problem, pos + part.length⟩ ∧ text = part ++ rest ∧
      textOf (s.tokens.map Token.lexeme) = part ∧ Stuck rest problem ∧
        ∀ token ∈ s.tokens, token.lexeme ≠ .finish := by
  induction h with
  | finish pos => exact Or.inl ⟨rfl, rfl, [], rfl, List.forall_mem_nil _⟩
  | @stuck text problem pos hstuck =>
    exact Or.inr ⟨[], text, problem, rfl, rfl, rfl, hstuck, List.forall_mem_nil _⟩
  | @token pos part text l s hpart _ ih =>
    have hfirst : textOf ((⟨l, pos⟩ :: s.tokens).map Token.lexeme) =
        part ++ textOf (s.tokens.map Token.lexeme) := by
      rw [List.map_cons, textOf, List.flatMap_cons, text_of_spelling hpart]
      rfl
    have hend := ne_finish_of_spelling hpart
    -- Whichever way the rest ends, its positions are counted from behind the first token.
    rcases ih with ⟨hnone, htext, body, hbody, hends⟩ |
      ⟨before, rest, problem, herror, htext, hbefore, hstuck, hends⟩
    · refine Or.inl ⟨hnone, by rw [hfirst, htext], ⟨l, pos⟩ :: body, ?_,
        List.forall_mem_cons.2 ⟨hend, hends⟩⟩
      rw [hbody, List.length_append, Nat.add_assoc]
      rfl
    · refine Or.inr ⟨part ++ before, rest, problem, ?_, ?_, by rw [hfirst, hbefore], hstuck,
        List.forall_mem_cons.2 ⟨hend, hends⟩⟩
      · rw [herror, List.length_append, Nat.add_assoc]
      · rw [htext, List.append_assoc]

/-- Tokens from the beginning of a pattern stand for what they are written as. -/
theorem transcribes (h : Scans 0 text s) :
    Transcribes s.tokens (textOf (s.tokens.map Token.lexeme)) where
  textOf_eq := rfl
  position_eq before token after htokens := by
    rw [h.position_eq htokens, Nat.zero_add]
  increasing := h.increasing
  operator_iff := h.operator_iff

end Scans

/-! ### Pairing -/

section Paired

variable {pos : Nat} {text : List Char} {pieces : List Piece} {s : Scan}

theorem exists_paired (text : List Char) : ∃ pieces, Paired text pieces := by
  match text with
  | [] => exact ⟨_, .nil⟩
  | ['\\'] => exact ⟨_, .lone⟩
  | c :: d :: rest =>
    -- A backslash takes the next character into its piece, so the rest begins one character later.
    by_cases hc : c = '\\'
    · subst hc
      rcases exists_paired rest with ⟨pieces, hpieces⟩
      exact ⟨_, .pair hpieces⟩
    · rcases exists_paired (d :: rest) with ⟨pieces, hpieces⟩
      exact ⟨_, .bare hc hpieces⟩
  | [c] =>
    by_cases hc : c = '\\'
    · subst hc
      exact ⟨_, .lone⟩
    · exact ⟨_, .bare hc .nil⟩

theorem Paired.unique {pieces' : List Piece} (h : Paired text pieces) (h' : Paired text pieces') :
    pieces = pieces' := by
  induction h generalizing pieces' with
  | nil =>
    cases h'
    rfl
  | bare hc _ ih =>
    cases h' with
    | bare _ rest => rw [ih rest]
    | pair | lone => exact absurd rfl hc
  | pair _ ih =>
    cases h' with
    | bare hc _ => exact absurd rfl hc
    | pair rest => rw [ih rest]
  | lone =>
    cases h' with
    | bare hc _ => exact absurd rfl hc
    | lone => rfl

/-- Where a text is stuck, its first piece is at fault. -/
theorem Stuck.exists_unreadable {problem : Problem} (h : Stuck text problem)
    (hpaired : Paired text pieces) : ∃ piece ∈ pieces, piece.Unreadable := by
  cases h with
  | lone =>
    cases hpaired with
    | bare hbackslash _ => exact absurd rfl hbackslash
    | lone => exact ⟨.lone, List.mem_cons_self, trivial⟩
  | bare hc rest =>
    cases hpaired with
    | bare _ _ => exact ⟨_, List.mem_cons_self, hc⟩
    -- A backslash is a symbol, so it is not what the text is stuck at.
    | pair | lone => exact absurd (by decide) hc
  | pair hc rest =>
    cases hpaired with
    | bare hbackslash _ => exact absurd rfl hbackslash
    | pair _ => exact ⟨_, List.mem_cons_self, hc⟩

/-- The tokenizer fails exactly if a piece cannot be read. -/
theorem Scans.fails_iff (h : Scans pos text s) (hpaired : Paired text pieces) :
    (∃ error, s.error? = some error) ↔ ∃ piece ∈ pieces, piece.Unreadable := by
  induction h generalizing pieces with
  | finish pos =>
    cases hpaired
    simp
  | stuck pos hstuck => exact iff_of_true ⟨_, rfl⟩ (hstuck.exists_unreadable hpaired)
  | @token pos part text l s hpart _ ih =>
    -- The first piece is the part that spells the first token, and its character is a symbol.
    have hreadable : ∃ first rest, pieces = first :: rest ∧ ¬ first.Unreadable ∧
        Paired text rest := by
      rcases spelling_single_iff.1 hpart with ⟨c, hsymbol, ⟨hc, rfl, -⟩ | ⟨rfl, -⟩⟩
      · cases hpaired with
        | bare _ rest => exact ⟨_, _, rfl, not_not.2 (isSymbol_eq_true_iff.1 hsymbol), rest⟩
        | pair | lone => exact absurd rfl hc
      · cases hpaired with
        | bare hc _ => exact absurd rfl hc
        | pair rest => exact ⟨_, _, rfl, not_not.2 (isSymbol_eq_true_iff.1 hsymbol), rest⟩
    rcases hreadable with ⟨first, rest, rfl, hfirst, hrest⟩
    rw [ih hrest]
    simp [hfirst]

end Paired

/-! ### Tokens from a cursor -/

section Drains

variable {pos : Nat} {text pattern : List Char} {cursor : Cursor} {s s' : Scan} {error : Error}

/-- If there is no first token, there is none at all. -/
theorem Scans.eq_of_error (h : Scans pos text s)
    (hread : (readToken pos text).outcome = .error error) : s = ⟨[], some error⟩ := by
  cases h with
  | finish => exact absurd hread (by simp [readToken])
  | stuck _ hstuck =>
    rw [readToken_of_stuck hstuck, Except.error.injEq] at hread
    rw [hread]
  | token hpart _ =>
    rw [readToken_of_spelling hpart] at hread
    exact absurd hread (by simp)

/-- A cursor whose next token is the first one of a text hands out the tokens of the text. -/
theorem Scans.drains (h : Scans pos text s)
    (hread : readToken pos text = ⟨.ok cursor.token, cursor.pos, cursor.rest⟩) :
    Drains cursor s := by
  induction h generalizing cursor with
  | finish pos =>
    simp only [readToken, Reading.mk.injEq, Except.ok.injEq] at hread
    rw [hread.1]
    exact .finish (by rw [← hread.1])
  | stuck pos hstuck =>
    have hfails := readToken_of_stuck hstuck pos
    rw [hread] at hfails
    exact absurd hfails (by simp)
  | @token pos part text l s hpart hrest ih =>
    rw [readToken_of_spelling hpart] at hread
    simp only [Reading.mk.injEq, Except.ok.injEq] at hread
    rcases hread with ⟨htoken, hpos, rfl⟩
    have hend : cursor.token.lexeme ≠ .finish := by
      rw [← htoken]
      exact ne_finish_of_spelling hpart
    rw [htoken]
    rw [hpos] at hrest ih
    -- Advancing reads the token that the rest of the text begins with, if there is one.
    rcases hnext : readToken cursor.pos cursor.rest with ⟨outcome, pos', rest'⟩
    cases outcome with
    | error error =>
      have hadvance : advance cursor = .error error { cursor with pos := pos', rest := rest' } := by
        simp only [advance, hnext]
      rw [hrest.eq_of_error (by rw [hnext])]
      exact .stuck hend hadvance
    | ok token =>
      have hadvance : advance cursor = .ok cursor.token ⟨token, pos', rest', cursor.depth⟩ :=
        advance_eq_ok_iff.2 ⟨rfl, rfl, hnext⟩
      exact .token hend hadvance (ih hnext)

theorem Drains.unique (h : Drains cursor s) (h' : Drains cursor s') : s = s' := by
  induction h generalizing s' with
  | finish hend =>
    cases h' with
    | finish => rfl
    | stuck hmore _ | token hmore _ _ => exact absurd hend hmore
  | stuck hend hadvance =>
    cases h' with
    | finish hfinish => exact absurd hfinish hend
    | stuck _ hadvance' =>
      rw [hadvance, EStateM.Result.error.injEq] at hadvance'
      rw [hadvance'.1]
    | token _ hadvance' _ =>
      rw [hadvance] at hadvance'
      exact absurd hadvance' (by simp)
  -- Consuming the same token leaves the same cursor.
  | token hend hadvance _ ih =>
    cases h' with
    | finish hfinish => exact absurd hfinish hend
    | stuck _ hadvance' =>
      rw [hadvance] at hadvance'
      exact absurd hadvance' (by simp)
    | token _ hadvance' rest =>
      rw [hadvance, EStateM.Result.ok.injEq] at hadvance'
      rw [← hadvance'.2] at rest
      rw [ih rest]

theorem scans_scan (pattern : List Char) : Scans 0 pattern (scan pattern) :=
  scans_scanFrom (Nat.lt_succ_self _) 0

theorem lexes_scan (pattern : List Char) : Lexes pattern (scan pattern) := by
  have hscans := scans_scan pattern
  -- The cursor is made by reading the first token, and there is none if that fails.
  rcases hread : readToken 0 pattern with ⟨outcome, pos, rest⟩
  cases outcome with
  | error error =>
    rw [hscans.eq_of_error (by rw [hread])]
    refine .stuck ?_
    rw [Cursor.start, hread]
    rfl
  | ok token =>
    have hstart : Cursor.start pattern 0 = .ok ⟨token, pos, rest, 0⟩ :=
      start_eq_ok_iff.2 ⟨rfl, hread⟩
    exact .cursor hstart (hscans.drains hread)

/-- The parser is handed the tokens that are listed, and the same error. -/
theorem lexes_iff : Lexes pattern s ↔ s = scan pattern := by
  constructor
  · intro h
    have hscan := lexes_scan pattern
    cases h with
    | stuck hstart =>
      generalize scan pattern = listed at hscan
      cases hscan with
      | stuck hstart' => rw [Except.error.inj (hstart.symm.trans hstart')]
      | cursor hstart' _ => exact absurd (hstart.symm.trans hstart') (by simp)
    | cursor hstart rest =>
      generalize scan pattern = listed at hscan
      cases hscan with
      | stuck hstart' => exact absurd (hstart.symm.trans hstart') (by simp)
      | cursor hstart' rest' =>
        rw [Except.ok.inj (hstart.symm.trans hstart')] at rest
        exact rest.unique rest'
  · rintro rfl
    exact lexes_scan pattern

theorem Drains.tokens_ne_nil (h : Drains cursor s) : s.tokens ≠ [] := by
  cases h <;> exact List.cons_ne_nil _ _

/-- Of the tokens that come one after another, the last one before an error is kept back. -/
theorem Drains.handsOn (h : Drains cursor s) : HandsOn cursor s.handedOn := by
  induction h with
  | finish hend => exact .finish hend
  | stuck hend hadvance => exact .stuck hend hadvance
  | @token cursor next s hend hadvance rest ih =>
    -- There are more tokens to come, so the first one is not the one that is kept back.
    have hfirst : Scan.handedOn ⟨cursor.token :: s.tokens, s.error?⟩ =
        cursor.token :: s.handedOn := by
      unfold Scan.handedOn
      cases s.error? with
      | none => rfl
      | some _ => exact List.dropLast_cons_of_ne_nil rest.tokens_ne_nil
    rw [hfirst]
    exact .token hend hadvance ih

theorem handsOn_scan (hstart : Cursor.start pattern 0 = .ok cursor) :
    HandsOn cursor (scan pattern).handedOn := by
  have hscan := lexes_scan pattern
  generalize scan pattern = listed at hscan
  cases hscan with
  | stuck hstart' => exact absurd (hstart.symm.trans hstart') (by simp)
  | cursor hstart' rest =>
    rw [← Except.ok.inj (hstart.symm.trans hstart')] at rest
    exact rest.handsOn

end Drains

/-- No token is lost or made up. The tokens that the parser is handed stand for the whole pattern up
    to the end token, or for what stands before the place where the pattern is stuck. It is stuck
    somewhere exactly if pairing backslashes from the left, which can be done in one way only,
    leaves a piece that cannot be read. -/
theorem scan_lossless (pattern : List Char) :
    (∀ s, Lexes pattern s ↔ s = scan pattern) ∧
    ((scan pattern).error? = none → Transcribes (scan pattern).tokens pattern ∧
      ∃ body, (scan pattern).tokens = body ++ [⟨.finish, pattern.length⟩] ∧
        ∀ token ∈ body, token.lexeme ≠ .finish) ∧
    (∀ error, (scan pattern).error? = some error → ∃ before rest, pattern = before ++ rest ∧
      before.length = error.position ∧ Transcribes (scan pattern).tokens before ∧
        (∀ token ∈ (scan pattern).tokens, token.lexeme ≠ .finish) ∧ Stuck rest error.problem) ∧
    ∃ pieces, (∀ pieces', Paired pattern pieces' ↔ pieces' = pieces) ∧
      ((∃ error, (scan pattern).error? = some error) ↔ ∃ piece ∈ pieces, piece.Unreadable) := by
  have hscans := scans_scan pattern
  have htranscribes := hscans.transcribes
  refine ⟨fun s => lexes_iff, fun hnone => ?_, fun error herror => ?_, ?_⟩
  -- Where nothing is reported, the tokens come to the end, and there is no other case.
  · rcases hscans.exists_split with ⟨-, htext, body, hbody, hends⟩ | ⟨_, _, _, herror, -⟩
    · rw [htext] at htranscribes
      rw [Nat.zero_add] at hbody
      exact ⟨htranscribes, body, hbody, hends⟩
    · rw [hnone] at herror
      exact absurd herror (by simp)
  · rcases hscans.exists_split with ⟨hnone, -⟩ |
      ⟨before, rest, problem, hsome, htext, hbefore, hstuck, hends⟩
    · rw [hnone] at herror
      exact absurd herror (by simp)
    · rw [hsome, Option.some.injEq] at herror
      rw [hbefore] at htranscribes
      rw [← herror]
      exact ⟨before, rest, htext, (Nat.zero_add _).symm, htranscribes, hends, hstuck⟩
  · rcases exists_paired pattern with ⟨pieces, hpieces⟩
    -- The pairing does not look at what can be read, so that failure is compared with it from
    -- outside.
    refine ⟨pieces, fun pieces' => ⟨fun h => h.unique hpieces, ?_⟩, hscans.fails_iff hpieces⟩
    rintro rfl
    exact hpieces

/-- A run of two backslashes is one token, and of three the last one is left over. -/
theorem scan_lossless_backslashes :
    (scan "(\\)\\\\".toList).error? = none ∧
      Transcribes (scan "(\\)\\\\".toList).tokens "(\\)\\\\".toList ∧
    (scan "a+\\\\\\".toList).error? = some ⟨.invalidEscape, 4⟩ ∧
      ∃ before rest, "a+\\\\\\".toList = before ++ rest ∧ before.length = 4 ∧
        Transcribes (scan "a+\\\\\\".toList).tokens before ∧ Stuck rest .invalidEscape := by
  have hread : (scan "(\\)\\\\".toList).error? = none := by decide +kernel
  have hstuck : (scan "a+\\\\\\".toList).error? = some ⟨.invalidEscape, 4⟩ := by decide +kernel
  rcases (scan_lossless "a+\\\\\\".toList).2.2.1 _ hstuck with
    ⟨before, rest, hpattern, hlength, htranscribes, -, hrest⟩
  exact ⟨hread, ((scan_lossless _).2.1 hread).1, hstuck, before, rest, hpattern, hlength,
    htranscribes, hrest⟩

end Pattern

end FiniteState
