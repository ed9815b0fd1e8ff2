import FiniteState.Proofs.Grammar

/-!
# Laws of Readers

When a reader succeeds, and which lexemes it has consumed then. Each law says what has to hold for
a step to end with a certain value at a certain cursor, so that a rule of the parser is taken apart
into its steps without opening any of them.

The loops of the parser are bounded by counts. Every round consumes a token, so a count that is not
below the number of tokens left never cuts a loop short, and what a loop reads can be said without
it (`upTo_eq_ok_iff`).

## Main definitions

* `Pattern.Cursor.left`: A bound on the number of tokens left.
* `Pattern.Cursor.Placed`: The next token lies before the text after it.
* `Pattern.Reads`: The lexemes consumed on the way from one cursor to another.
* `Pattern.Repeats`: The items that a loop reads.

## Theorems

* `Pattern.bind_eq_ok_iff`, `Pattern.advance_eq_ok_iff`, `Pattern.deeper_eq_ok_iff`: When the steps
  succeed.
* `Pattern.Reads.left_lt`: Consuming a lexeme leaves fewer.
* `Pattern.Reads.position_eq_iff`: The position of the next token tells whether any was consumed.
* `Pattern.upTo_eq_ok_iff`: A loop reads items until there is no other.
* `Pattern.exists_reads_iff`: The lexemes of a whole text are those that it spells.
-/

namespace FiniteState

namespace Pattern

section Steps

variable {α β : Type} {cursor after : Cursor}

theorem bind_eq_ok_iff {reader : Reader α} {next : α → Reader β} {value : β} :
    (reader >>= next) cursor = .ok value after ↔
      ∃ first middle, reader cursor = .ok first middle ∧ next first middle = .ok value after := by
  change EStateM.bind reader next cursor = _ ↔ _
  unfold EStateM.bind
  cases reader cursor with
  | ok first middle => simp [and_assoc]
  | error error middle => simp

theorem pure_eq_ok_iff {value result : α} :
    (pure value : Reader α) cursor = .ok result after ↔ value = result ∧ cursor = after := by
  change EStateM.Result.ok value cursor = _ ↔ _
  simp

theorem map_eq_ok_iff {reader : Reader α} {f : α → β} {value : β} :
    (f <$> reader) cursor = .ok value after ↔
      ∃ first, reader cursor = .ok first after ∧ f first = value := by
  -- The map of the monad is the one for its states.
  change EStateM.map f reader cursor = _ ↔ _
  unfold EStateM.map
  cases reader cursor with
  | ok first middle =>
    simp only [EStateM.Result.ok.injEq]
    constructor
    · intro h
      rcases h with ⟨hvalue, rfl⟩
      exact ⟨first, ⟨rfl, rfl⟩, hvalue⟩
    · intro h
      rcases h with ⟨_, ⟨rfl, rfl⟩, hvalue⟩
      exact ⟨hvalue, rfl⟩
  | error error middle => simp

theorem reject_ne_ok {problem : Problem} {token : Token} {value : α} :
    (reject problem token : Reader α) cursor ≠ .ok value after := by
  change EStateM.Result.error _ cursor ≠ _
  simp

/-- Consuming a token hands it on and reads the one after it. -/
theorem advance_eq_ok_iff {token : Token} :
    advance cursor = .ok token after ↔ token = cursor.token ∧ after.depth = cursor.depth ∧
      readToken cursor.pos cursor.rest = ⟨.ok after.token, after.pos, after.rest⟩ := by
  obtain ⟨next, pos, rest, depth⟩ := after
  unfold advance
  rcases readToken cursor.pos cursor.rest with ⟨outcome, pos', rest'⟩
  cases outcome with
  | error error => simp
  | ok found =>
    simp only [EStateM.Result.ok.injEq, Cursor.mk.injEq, Reading.mk.injEq, Except.ok.injEq]
    constructor
    · intro h
      rcases h with ⟨rfl, rfl, rfl, rfl, rfl⟩
      exact ⟨rfl, rfl, rfl, rfl, rfl⟩
    · intro h
      rcases h with ⟨rfl, rfl, rfl, rfl, rfl⟩
      exact ⟨rfl, rfl, rfl, rfl, rfl⟩

theorem deeper_eq_ok_iff {body : Reader α} {value : α} :
    deeper body cursor = .ok value after ↔
      ∃ inner, body { cursor with depth := cursor.depth + 1 } = .ok value inner ∧
        after = { inner with depth := inner.depth - 1 } := by
  unfold deeper
  cases body { cursor with depth := cursor.depth + 1 } with
  | ok found inner => simp [eq_comm, and_assoc]
  | error error inner => simp

theorem peek_bind_apply {next : Token → Reader α} :
    (peek >>= next) cursor = next cursor.token cursor :=
  rfl

theorem get_bind_apply {next : Cursor → Reader α} : (get >>= next) cursor = next cursor cursor :=
  rfl

theorem advance_bind_eq_ok_iff {next : Token → Reader α} {value : α} :
    (advance >>= next) cursor = .ok value after ↔
      ∃ middle, advance cursor = .ok cursor.token middle ∧
        next cursor.token middle = .ok value after := by
  rw [bind_eq_ok_iff]
  constructor
  · intro h
    rcases h with ⟨token, middle, hadvance, hnext⟩
    -- Whatever is handed on is the token that the cursor has been on.
    obtain rfl := (advance_eq_ok_iff.1 hadvance).1
    exact ⟨middle, hadvance, hnext⟩
  · intro h
    rcases h with ⟨middle, hadvance, hnext⟩
    exact ⟨cursor.token, middle, hadvance, hnext⟩

/-- What comes after a check is read only if the check does not reject. -/
theorem check_eq_ok_iff {condition : Prop} [Decidable condition] {problem : Problem}
    {token : Token} {next : Unit → Reader α} {value : α} :
    (if condition then reject problem token >>= next else next ()) cursor = .ok value after ↔
      ¬ condition ∧ next () cursor = .ok value after := by
  by_cases h : condition
  · rw [if_pos h, bind_eq_ok_iff]
    simp [h, reject_ne_ok]
  · rw [if_neg h]
    simp [h]

end Steps

theorem atEnd_eq_true_iff {token : Token} : token.atEnd = true ↔ token.lexeme = .finish := by
  simp [Token.atEnd]

namespace Cursor

/-- A bound on the number of tokens left, the end not counted. -/
def left (cursor : Cursor) : Nat :=
  if cursor.token.atEnd then 0 else cursor.rest.length + 1

/-- The next token begins before the text after it, unless it is the end. -/
def Placed (cursor : Cursor) : Prop :=
  cursor.token.lexeme ≠ .finish → cursor.token.position < cursor.pos

theorem left_le (cursor : Cursor) : cursor.left ≤ cursor.rest.length + 1 := by
  unfold left
  split
  · exact Nat.zero_le _
  · exact le_refl _

theorem left_eq_zero_iff {cursor : Cursor} : cursor.left = 0 ↔ cursor.token.lexeme = .finish := by
  unfold left
  by_cases h : cursor.token.lexeme = .finish <;> simp [atEnd_eq_true_iff, h]

end Cursor

theorem isOperator_eq_true_iff {token : Token} {symbol : Char} :
    token.isOperator symbol = true ↔ token.lexeme = .operator symbol := by
  simp [Token.isOperator]

theorem isHyphen_eq_true_iff {token : Token} :
    token.isHyphen = true ↔ token.lexeme = .plain '-' := by
  simp [Token.isHyphen]

theorem bareLexeme_ne_finish (c : Char) : bareLexeme c ≠ .finish := by
  unfold bareLexeme
  split <;> simp

theorem readToken_bare {pos : Nat} {c : Char} {text : List Char} (hc : c ≠ '\\') :
    readToken pos (c :: text) = ⟨supported (bareLexeme c) c pos, pos + 1, text⟩ := by
  unfold readToken
  split
  next heq => exact absurd heq (List.cons_ne_nil _ _)
  next heq => exact absurd (List.cons.inj heq).1 hc
  next heq => exact absurd (List.cons.inj heq).1 hc
  next heq =>
    rcases List.cons.inj heq with ⟨rfl, rfl⟩
    rfl

theorem supported_eq_ok_iff {lexeme : Lexeme} {c : Char} {pos : Nat} {token : Token} :
    supported lexeme c pos = .ok token ↔ isSymbol c = true ∧ token = ⟨lexeme, pos⟩ := by
  unfold supported
  split <;> simp [*, eq_comm]

/-- A token is read where a text has ended, from a symbol without a backslash, or from a backslash
    and a symbol. -/
theorem readToken_eq_ok_iff {pos pos' : Nat} {text rest : List Char} {token : Token} :
    readToken pos text = ⟨.ok token, pos', rest⟩ ↔
      (text = [] ∧ token = ⟨.finish, pos⟩ ∧ pos' = pos ∧ rest = []) ∨
      (∃ c, text = c :: rest ∧ c ≠ '\\' ∧ isSymbol c = true ∧ token = ⟨bareLexeme c, pos⟩ ∧
        pos' = pos + 1) ∨
      (∃ c, text = '\\' :: c :: rest ∧ isSymbol c = true ∧ token = ⟨.escaped c, pos⟩ ∧
        pos' = pos + 2) := by
  constructor
  · intro h
    match text with
    | [] =>
      simp only [readToken, Reading.mk.injEq, Except.ok.injEq] at h
      exact Or.inl ⟨rfl, h.1.symm, h.2.1.symm, h.2.2.symm⟩
    | c :: text =>
      -- A backslash takes the character after it along, whatever that is.
      by_cases hc : c = '\\'
      · subst hc
        cases text with
        | nil => simp [readToken] at h
        | cons d text =>
          simp only [readToken, Reading.mk.injEq, supported_eq_ok_iff] at h
          rcases h with ⟨⟨hsymbol, htoken⟩, hpos, rfl⟩
          exact Or.inr (Or.inr ⟨d, rfl, hsymbol, htoken, hpos.symm⟩)
      · simp only [readToken_bare hc, Reading.mk.injEq, supported_eq_ok_iff] at h
        rcases h with ⟨⟨hsymbol, htoken⟩, hpos, rfl⟩
        exact Or.inr (Or.inl ⟨c, rfl, hc, hsymbol, htoken, hpos.symm⟩)
  · rintro (⟨rfl, rfl, rfl, rfl⟩ | ⟨c, rfl, hc, hsymbol, rfl, rfl⟩ | ⟨c, rfl, hsymbol, rfl, rfl⟩)
    · rfl
    · rw [readToken_bare hc, supported_eq_ok_iff.2 ⟨hsymbol, rfl⟩]
    · rw [readToken, supported_eq_ok_iff.2 ⟨hsymbol, rfl⟩]

/-- A lexeme takes characters away from the text, and the end is found where there are none. -/
theorem readToken_cases {pos pos' : Nat} {text rest : List Char} {token : Token}
    (h : readToken pos text = ⟨.ok token, pos', rest⟩) :
    token.position = pos ∧ ((text = [] ∧ token.lexeme = .finish) ∨
      (token.lexeme ≠ .finish ∧ pos < pos' ∧ rest.length < text.length)) := by
  rcases readToken_eq_ok_iff.1 h with ⟨rfl, rfl, _⟩ | ⟨c, rfl, _, _, rfl, rfl⟩ |
    ⟨c, rfl, _, rfl, rfl⟩
  · exact ⟨rfl, Or.inl ⟨rfl, rfl⟩⟩
  · exact ⟨rfl, Or.inr ⟨bareLexeme_ne_finish c, by omega, by simp⟩⟩
  -- A backslash takes two characters.
  · refine ⟨rfl, Or.inr ⟨by simp, by omega, ?_⟩⟩
    simp only [List.length_cons]
    omega

theorem placed_of_readToken {pos : Nat} {text : List Char} {cursor : Cursor}
    (h : readToken pos text = ⟨.ok cursor.token, cursor.pos, cursor.rest⟩) : cursor.Placed := by
  intro hend
  rcases readToken_cases h with ⟨hposition, ⟨_, hfinish⟩ | ⟨_, hlt, _⟩⟩
  · exact absurd hfinish hend
  · omega

/-- Consuming a token leaves fewer tokens, and the next one begins where the text began. -/
theorem advance_spec {cursor after : Cursor} {token : Token}
    (h : advance cursor = .ok token after) :
    after.token.position = cursor.pos ∧ after.Placed ∧
      (cursor.token.lexeme ≠ .finish → after.left < cursor.left) := by
  rcases advance_eq_ok_iff.1 h with ⟨_, _, hread⟩
  rcases readToken_cases hread with ⟨hposition, hcases⟩
  refine ⟨hposition, placed_of_readToken hread, fun hend => ?_⟩
  -- The bound counts the characters behind the next token, and reading takes some of them.
  have hcursor : cursor.left = cursor.rest.length + 1 := by
    simp [Cursor.left, atEnd_eq_true_iff, hend]
  rcases hcases with ⟨_, hfinish⟩ | ⟨_, _, hlt⟩
  · have hafter := Cursor.left_eq_zero_iff.2 hfinish
    omega
  · have hle := after.left_le
    omega

/-- The lexemes consumed on the way from one cursor to another, the end not among them. -/
inductive Reads : Cursor → List Lexeme → Cursor → Prop
  | nil (cursor : Cursor) : Reads cursor [] cursor
  | cons {cursor next after : Cursor} {lexemes : List Lexeme}
      (hend : cursor.token.lexeme ≠ .finish) (hadvance : advance cursor = .ok cursor.token next)
      (rest : Reads next lexemes after) : Reads cursor (cursor.token.lexeme :: lexemes) after

section Reads

variable {cursor middle after : Cursor} {l : Lexeme} {lexemes u v : List Lexeme}

theorem reads_nil_iff : Reads cursor [] after ↔ after = cursor := by
  constructor
  · intro h
    cases h
    rfl
  · rintro rfl
    exact .nil _

theorem reads_cons_iff :
    Reads cursor (l :: lexemes) after ↔ l ≠ .finish ∧ cursor.token.lexeme = l ∧
      ∃ next, advance cursor = .ok cursor.token next ∧ Reads next lexemes after := by
  constructor
  · intro h
    cases h with
    | cons hend hadvance rest => exact ⟨hend, rfl, _, hadvance, rest⟩
  · intro h
    rcases h with ⟨hend, rfl, next, hadvance, rest⟩
    exact .cons hend hadvance rest

theorem reads_single_iff :
    Reads cursor [l] after ↔ l ≠ .finish ∧ cursor.token.lexeme = l ∧
      advance cursor = .ok cursor.token after := by
  simp [reads_cons_iff, reads_nil_iff]

theorem reads_append_iff :
    Reads cursor (u ++ v) after ↔ ∃ middle, Reads cursor u middle ∧ Reads middle v after := by
  induction u generalizing cursor with
  | nil => simp [reads_nil_iff]
  | cons l u ih =>
    simp only [List.cons_append, reads_cons_iff, ih]
    constructor
    · intro h
      rcases h with ⟨hend, hl, next, hadvance, middle, hu, hv⟩
      exact ⟨middle, ⟨hend, hl, next, hadvance, hu⟩, hv⟩
    · intro h
      rcases h with ⟨middle, ⟨hend, hl, next, hadvance, hu⟩, hv⟩
      exact ⟨hend, hl, next, hadvance, middle, hu, hv⟩

theorem Reads.depth_eq (h : Reads cursor lexemes after) : after.depth = cursor.depth := by
  induction h with
  | nil => rfl
  | cons _ hadvance _ ih => exact ih.trans (advance_eq_ok_iff.1 hadvance).2.1

/-- Lexemes are consumed in the same way at any depth of groups. -/
theorem Reads.withDepth (h : Reads cursor lexemes after) (depth : Int) :
    Reads { cursor with depth := depth } lexemes { after with depth := depth } := by
  induction h with
  | nil => exact .nil _
  | cons hend hadvance _ ih =>
    refine reads_cons_iff.2 ⟨hend, rfl, _, ?_, ih⟩
    exact advance_eq_ok_iff.2 ⟨rfl, rfl, (advance_eq_ok_iff.1 hadvance).2.2⟩

theorem Reads.left_le (h : Reads cursor lexemes after) : after.left ≤ cursor.left := by
  induction h with
  | nil => exact le_refl _
  | cons hend hadvance _ ih => exact ih.trans ((advance_spec hadvance).2.2 hend).le

/-- Consuming a lexeme leaves fewer tokens. -/
theorem Reads.left_lt (h : Reads cursor lexemes after) (hne : lexemes ≠ []) :
    after.left < cursor.left := by
  cases h with
  | nil => exact absurd rfl hne
  | cons hend hadvance rest => exact rest.left_le.trans_lt ((advance_spec hadvance).2.2 hend)

theorem Reads.position_le (h : Reads cursor lexemes after) (hcursor : cursor.Placed) :
    cursor.token.position ≤ after.token.position := by
  induction h with
  | nil => exact le_refl _
  | cons hend hadvance _ ih =>
    have hspec := advance_spec hadvance
    have hle := ih hspec.2.1
    have hlt := hcursor hend
    omega

/-- The position of the next token tells whether any lexeme was consumed. -/
theorem Reads.position_eq_iff (h : Reads cursor lexemes after) (hcursor : cursor.Placed) :
    after.token.position = cursor.token.position ↔ lexemes = [] := by
  cases h with
  | nil => simp
  | cons hend hadvance rest =>
    have hspec := advance_spec hadvance
    have hle := rest.position_le hspec.2.1
    have hlt := hcursor hend
    -- One lexeme has been consumed, and positions only grow.
    simp only [reduceCtorEq, iff_false]
    omega

end Reads

/-- The items that a loop reads until there is no other. -/
inductive Repeats {α : Type} (item : Reader (Option α)) : Cursor → List α → Cursor → Prop
  | stop {cursor after : Cursor} (h : item cursor = .ok none after) : Repeats item cursor [] after
  | next {cursor middle after : Cursor} {first : α} {others : List α}
      (h : item cursor = .ok (some first) middle) (rest : Repeats item middle others after) :
      Repeats item cursor (first :: others) after

section Loops

variable {α : Type} {item : Reader (Option α)} {cursor after : Cursor} {items : List α}

/-- Where every item consumes a token, a loop whose count is not below the number of tokens left
    reads items until there is no other. -/
theorem upTo_eq_ok_iff (invariant : Cursor → Prop)
    (hitem : ∀ cursor value middle, invariant cursor → item cursor = .ok (some value) middle →
      invariant middle ∧ middle.left < cursor.left)
    {count : Nat} (hcursor : invariant cursor) (hcount : cursor.left < count) :
    upTo item count cursor = .ok items after ↔ Repeats item cursor items after := by
  induction count generalizing cursor items with
  | zero => exact absurd hcount (Nat.not_lt_zero _)
  | succ count ih =>
    rw [upTo, bind_eq_ok_iff]
    constructor
    · intro h
      rcases h with ⟨found, middle, hfound, hrest⟩
      cases found with
      | none =>
        rcases pure_eq_ok_iff.1 hrest with ⟨rfl, rfl⟩
        exact .stop hfound
      | some first =>
        rcases bind_eq_ok_iff.1 hrest with ⟨others, last, hothers, hpure⟩
        rcases pure_eq_ok_iff.1 hpure with ⟨rfl, rfl⟩
        -- The item has consumed a token, so what is left of the count is enough for the rest.
        rcases hitem _ _ _ hcursor hfound with ⟨hmiddle, hlt⟩
        exact .next hfound ((ih hmiddle (by omega)).1 hothers)
    · intro h
      cases h with
      | stop h => exact ⟨none, after, h, pure_eq_ok_iff.2 ⟨rfl, rfl⟩⟩
      | @next _ middle _ first others h rest =>
        rcases hitem _ _ _ hcursor h with ⟨hmiddle, hlt⟩
        refine ⟨some first, middle, h, bind_eq_ok_iff.2 ⟨others, after, ?_, ?_⟩⟩
        · exact (ih hmiddle (by omega)).2 rest
        · exact pure_eq_ok_iff.2 ⟨rfl, rfl⟩

theorem many_eq_ok_iff (invariant : Cursor → Prop)
    (hitem : ∀ cursor value middle, invariant cursor → item cursor = .ok (some value) middle →
      invariant middle ∧ middle.left < cursor.left)
    (hcursor : invariant cursor) :
    many item cursor = .ok items after ↔ Repeats item cursor items after := by
  have hle := cursor.left_le
  exact upTo_eq_ok_iff invariant hitem hcursor (by omega)

end Loops

/-- A token can be read from a text that spells lexemes. -/
theorem Spelling.exists_readToken {text : List Char} {lexemes : List Lexeme}
    (h : Spelling text lexemes) (pos : Nat) :
    ∃ token pos' rest, readToken pos text = ⟨.ok token, pos', rest⟩ := by
  cases h with
  | nil => exact ⟨_, _, _, rfl⟩
  | bare hsymbol hbackslash _ =>
    -- What is spelled next is one of the readable pieces.
    rw [readToken_bare hbackslash, supported_eq_ok_iff.2 ⟨hsymbol, rfl⟩]
    exact ⟨_, _, _, rfl⟩
  | escaped hsymbol _ =>
    rw [readToken, supported_eq_ok_iff.2 ⟨hsymbol, rfl⟩]
    exact ⟨_, _, _, rfl⟩

/-- From the first token of a text to the end, the lexemes are those that the text spells. -/
theorem exists_reads_iff {pos : Nat} {text : List Char} {cursor : Cursor} {lexemes : List Lexeme}
    (h : readToken pos text = ⟨.ok cursor.token, cursor.pos, cursor.rest⟩) :
    (∃ after, Reads cursor lexemes after ∧ after.token.lexeme = .finish) ↔
      Spelling text lexemes := by
  induction lexemes generalizing pos text cursor with
  | nil =>
    simp only [reads_nil_iff, exists_eq_left]
    constructor
    · intro hfinish
      rcases readToken_cases h with ⟨-, ⟨rfl, -⟩ | ⟨hne, -⟩⟩
      · exact .nil
      · exact absurd hfinish hne
    · intro hspelling
      cases hspelling
      rcases readToken_cases h with ⟨-, ⟨-, hfinish⟩ | ⟨-, -, hlt⟩⟩
      · exact hfinish
      · exact absurd hlt (Nat.not_lt_zero _)
  | cons l lexemes ih =>
    -- The next token is read from the text that the first one leaves.
    have htail : (∃ after, Reads cursor (l :: lexemes) after ∧ after.token.lexeme = .finish) ↔
        cursor.token.lexeme = l ∧ l ≠ .finish ∧ Spelling cursor.rest lexemes := by
      simp only [reads_cons_iff]
      constructor
      · intro hfound
        rcases hfound with ⟨after, ⟨hend, hl, next, hadvance, hreads⟩, hfinish⟩
        have hnext := (advance_eq_ok_iff.1 hadvance).2.2
        exact ⟨hl, hend, (ih hnext).1 ⟨after, hreads, hfinish⟩⟩
      · intro hfound
        rcases hfound with ⟨hl, hend, hspelling⟩
        rcases hspelling.exists_readToken cursor.pos with ⟨token, pos', rest, hread⟩
        have hadvance : advance cursor = .ok cursor.token ⟨token, pos', rest, cursor.depth⟩ :=
          advance_eq_ok_iff.2 ⟨rfl, rfl, hread⟩
        have hnext := (advance_eq_ok_iff.1 hadvance).2.2
        rcases (ih hnext).2 hspelling with ⟨after, hreads, hfinish⟩
        exact ⟨after, ⟨hend, hl, _, hadvance, hreads⟩, hfinish⟩
    rw [htail]
    generalize cursor.rest = rest at h
    rcases readToken_eq_ok_iff.1 h with ⟨rfl, htoken, -⟩ | ⟨c, rfl, hc, hsymbol, htoken, -⟩ |
      ⟨c, rfl, hsymbol, htoken, -⟩ <;> rw [htoken]
    · constructor
      · intro hfound
        rcases hfound with ⟨rfl, hend, -⟩
        exact absurd rfl hend
      · intro hspelling
        cases hspelling
    · constructor
      · intro hfound
        rcases hfound with ⟨rfl, -, hspelling⟩
        exact .bare hsymbol hc hspelling
      · intro hspelling
        cases hspelling with
        | bare _ _ rest => exact ⟨rfl, bareLexeme_ne_finish c, rest⟩
        | escaped _ _ => exact absurd rfl hc
    · constructor
      · intro hfound
        rcases hfound with ⟨rfl, -, hspelling⟩
        exact .escaped hsymbol hspelling
      · intro hspelling
        cases hspelling with
        | bare _ hbackslash _ => exact absurd rfl hbackslash
        | escaped _ rest => exact ⟨rfl, by simp, rest⟩

end Pattern

end FiniteState
