import FiniteState.Proofs.Reading

/-!
# Classes and Quantifiers

The parts of a pattern that hold no other: the items between brackets, and the quantifiers behind a
term. Both are read by loops that look at the next token to see whether there is another round,
while the grammar only says what the rounds consume. So each loop is shown to stop where the grammar
does: an item is over where no hyphen comes next, and quantifiers are over where no other does.

## Main definitions

* `Pattern.IsQuantifier`: Whether a lexeme is a quantifier.

## Theorems

* `Pattern.symbol?_eq_some_iff`: The character of a token is the one that its lexeme shows.
* `Pattern.range_eq_ok_some_iff`: One round between brackets reads one item.
* `Pattern.characterClass_eq_ok_iff`: A character class is read as the grammar has it.
* `Pattern.quantifiers_eq_ok_iff`: All quantifiers behind a term are read, within the limit.
-/

namespace FiniteState

namespace Pattern

theorem symbol?_eq_some_iff {token : Token} {c : Char} :
    token.symbol? = some c ↔ Shows token.lexeme c := by
  unfold Token.symbol?
  constructor
  · intro h
    split at h <;> simp_all <;> constructor
  · intro h
    cases h' : token.lexeme <;> rw [h'] at h <;> cases h <;> rfl

theorem symbol?_eq_none_iff {token : Token} :
    token.symbol? = none ↔ token.lexeme = .finish := by
  unfold Token.symbol?
  split <;> simp_all

theorem Shows.ne_finish {l : Lexeme} {c : Char} (h : Shows l c) : l ≠ .finish := by
  cases h <;> simp

section CharacterClasses

variable {opening : Token} {cursor after : Cursor}

/-- An upper end is read exactly after a hyphen, and no bracket can be one. -/
theorem upperEnd_eq_ok_iff {upper : Option Char} :
    upperEnd opening cursor = .ok upper after ↔
      (cursor.token.lexeme ≠ .plain '-' ∧ upper = none ∧ after = cursor) ∨
      (∃ u high, u ≠ .operator ']' ∧ Shows u high ∧ upper = some high ∧
        Reads cursor [.plain '-', u] after) := by
  unfold upperEnd
  rw [peek_bind_apply]
  -- A hyphen asks for an upper end, and without one nothing is read.
  by_cases hhyphen : cursor.token.lexeme = .plain '-'
  · rw [if_pos (isHyphen_eq_true_iff.2 hhyphen), advance_bind_eq_ok_iff]
    simp only [peek_bind_apply]
    constructor
    · intro h
      rcases h with ⟨middle, hadvance, h⟩
      cases hsymbol : middle.token.symbol? with
      | none =>
        simp only [hsymbol, bind_eq_ok_iff] at h
        rcases h with ⟨_, _, hreject, _⟩
        exact absurd hreject reject_ne_ok
      | some high =>
        simp only [hsymbol, check_eq_ok_iff, advance_bind_eq_ok_iff, pure_eq_ok_iff,
          isOperator_eq_true_iff] at h
        rcases h with ⟨hclose, last, hlast, rfl, rfl⟩
        have hshows := symbol?_eq_some_iff.1 hsymbol
        refine Or.inr ⟨_, high, hclose, hshows, rfl, ?_⟩
        refine reads_cons_iff.2 ⟨by simp, hhyphen, middle, hadvance, ?_⟩
        exact reads_single_iff.2 ⟨hshows.ne_finish, rfl, hlast⟩
    · intro h
      rcases h with ⟨hne, -⟩ | ⟨u, high, hclose, hshows, rfl, hreads⟩
      · exact absurd hhyphen hne
      · rcases reads_cons_iff.1 hreads with ⟨-, -, middle, hadvance, hrest⟩
        rcases reads_single_iff.1 hrest with ⟨-, rfl, hlast⟩
        refine ⟨middle, hadvance, ?_⟩
        simp only [symbol?_eq_some_iff.2 hshows, check_eq_ok_iff, advance_bind_eq_ok_iff,
          pure_eq_ok_iff, isOperator_eq_true_iff]
        exact ⟨hclose, after, hlast, trivial, rfl⟩
  · rw [if_neg fun h => hhyphen (isHyphen_eq_true_iff.1 h), pure_eq_ok_iff]
    constructor
    · intro h
      rcases h with ⟨rfl, rfl⟩
      exact Or.inl ⟨hhyphen, rfl, rfl⟩
    · intro h
      rcases h with ⟨-, rfl, rfl⟩ | ⟨u, high, -, -, -, hreads⟩
      · exact ⟨rfl, rfl⟩
      · exact absurd (reads_cons_iff.1 hreads).2.1 hhyphen

/-- Where no bracket comes next, a round reads a symbol that is no hyphen and an upper end, if there
    is one, that is not below it. -/
theorem range_eq_ok_iff (hclose : cursor.token.lexeme ≠ .operator ']')
    {found : Option (Char × Char)} :
    range opening cursor = .ok found after ↔ ∃ low, Shows cursor.token.lexeme low ∧
      cursor.token.lexeme ≠ .plain '-' ∧ ∃ middle, advance cursor = .ok cursor.token middle ∧
        ∃ upper, upperEnd opening middle = .ok upper after ∧ low ≤ upper.getD low ∧
          found = some (low, upper.getD low) := by
  unfold range
  rw [peek_bind_apply, if_neg fun h => hclose (isOperator_eq_true_iff.1 h)]
  cases hsymbol : cursor.token.symbol? with
  | none =>
    refine ⟨fun h => absurd h reject_ne_ok, ?_⟩
    intro h
    rcases h with ⟨low, hshows, -⟩
    rw [symbol?_eq_some_iff.2 hshows] at hsymbol
    exact absurd hsymbol (by simp)
  -- The next lexeme shows one character only, so the lower end is settled.
  | some low =>
    have hshows : ∀ d, Shows cursor.token.lexeme d ↔ d = low := by
      intro d
      rw [← symbol?_eq_some_iff, hsymbol, Option.some.injEq, eq_comm]
    simp only [check_eq_ok_iff, isHyphen_eq_true_iff, hshows, exists_eq_left]
    refine and_congr_right fun _ => ?_
    rw [advance_bind_eq_ok_iff]
    simp only [bind_eq_ok_iff, check_eq_ok_iff, pure_eq_ok_iff, Char.not_lt]
    constructor
    · intro h
      rcases h with ⟨middle, hadvance, upper, _, hupper, hle, rfl, rfl⟩
      exact ⟨middle, hadvance, upper, hupper, hle, rfl⟩
    · intro h
      rcases h with ⟨middle, hadvance, upper, hupper, hle, rfl⟩
      exact ⟨middle, hadvance, upper, after, hupper, hle, rfl, rfl⟩

theorem range_eq_ok_none_iff :
    range opening cursor = .ok none after ↔
      cursor.token.lexeme = .operator ']' ∧ after = cursor := by
  by_cases hclose : cursor.token.lexeme = .operator ']'
  · unfold range
    rw [peek_bind_apply, if_pos (isOperator_eq_true_iff.2 hclose), pure_eq_ok_iff]
    simp [hclose, eq_comm]
  · simp [range_eq_ok_iff hclose, hclose]

/-- One round reads one item of the grammar. A hyphen after a symbol always makes a pair. -/
theorem range_eq_ok_some_iff {item : Char × Char} :
    range opening cursor = .ok (some item) after ↔ ∃ l low, StartsItem l ∧ Shows l low ∧
      ((item = (low, low) ∧ Reads cursor [l] after ∧ after.token.lexeme ≠ .plain '-') ∨
      (∃ u high, u ≠ .operator ']' ∧ Shows u high ∧ low ≤ high ∧ item = (low, high) ∧
        Reads cursor [l, .plain '-', u] after)) := by
  by_cases hclose : cursor.token.lexeme = .operator ']'
  -- A round that meets the closing bracket reads nothing, and no item begins with one.
  · have hrange : range opening cursor = .ok none cursor :=
      range_eq_ok_none_iff.2 ⟨hclose, rfl⟩
    rw [hrange]
    simp only [EStateM.Result.ok.injEq, reduceCtorEq, false_and, false_iff]
    intro h
    rcases h with ⟨l, low, hstart, -, ⟨-, hreads, -⟩ | ⟨u, high, -, -, -, -, hreads⟩⟩
    · exact hstart.1 ((reads_cons_iff.1 hreads).2.1.symm.trans hclose)
    · exact hstart.1 ((reads_cons_iff.1 hreads).2.1.symm.trans hclose)
  · rw [range_eq_ok_iff hclose]
    constructor
    · intro h
      rcases h with ⟨low, hshows, hhyphen, middle, hadvance, upper, hupper, hle, hitem⟩
      refine ⟨_, low, ⟨hclose, hhyphen⟩, hshows, ?_⟩
      -- Whether there is an upper end decides which of the two items it is.
      rcases upperEnd_eq_ok_iff.1 hupper with ⟨hne, rfl, rfl⟩ | ⟨u, high, hu, hhigh, rfl, hrest⟩
      · exact Or.inl ⟨Option.some.inj hitem,
          reads_single_iff.2 ⟨hshows.ne_finish, rfl, hadvance⟩, hne⟩
      · exact Or.inr ⟨u, high, hu, hhigh, hle, Option.some.inj hitem,
          reads_cons_iff.2 ⟨hshows.ne_finish, rfl, middle, hadvance, hrest⟩⟩
    · rintro ⟨l, low, hstart, hshows, ⟨rfl, hreads, hne⟩ | ⟨u, high, hu, hhigh, hle, rfl, hreads⟩⟩
      · rcases reads_single_iff.1 hreads with ⟨-, rfl, hadvance⟩
        exact ⟨low, hshows, hstart.2, after, hadvance, none,
          upperEnd_eq_ok_iff.2 (Or.inl ⟨hne, rfl, rfl⟩), Char.le_refl low, rfl⟩
      · rcases reads_cons_iff.1 hreads with ⟨-, rfl, middle, hadvance, hrest⟩
        exact ⟨low, hshows, hstart.2, middle, hadvance, some high,
          upperEnd_eq_ok_iff.2 (Or.inr ⟨u, high, hu, hhigh, rfl, hrest⟩), hle, rfl⟩

theorem Items.start {l : Lexeme} {lexemes : List Lexeme} {ranges : List (Char × Char)}
    (h : Items (l :: lexemes) ranges) : StartsItem l := by
  cases h with
  | symbol hstart _ _ => exact hstart
  | range hstart _ _ _ _ _ => exact hstart

/-- The rounds up to the closing bracket read the items of the grammar. -/
theorem repeats_range_iff {ranges : List (Char × Char)} :
    Repeats (range opening) cursor ranges after ↔ after.token.lexeme = .operator ']' ∧
      ∃ lexemes, Items lexemes ranges ∧ Reads cursor lexemes after := by
  constructor
  · intro h
    induction h with
    | stop h =>
      rcases range_eq_ok_none_iff.1 h with ⟨hclose, rfl⟩
      exact ⟨hclose, [], .nil, .nil _⟩
    | next h _ ih =>
      rcases ih with ⟨hclose, lexemes, hitems, hrest⟩
      refine ⟨hclose, ?_⟩
      rcases range_eq_ok_some_iff.1 h with ⟨l, low, hstart, hshows, ⟨rfl, hreads, -⟩ |
        ⟨u, high, hu, hhigh, hle, rfl, hreads⟩⟩
      · exact ⟨_, .symbol hstart hshows hitems, reads_append_iff.2 ⟨_, hreads, hrest⟩⟩
      · exact ⟨_, .range hstart hshows hu hhigh hle hitems, reads_append_iff.2 ⟨_, hreads, hrest⟩⟩
  · intro h
    rcases h with ⟨hclose, lexemes, hitems, hreads⟩
    induction hitems generalizing cursor with
    | nil =>
      obtain rfl := reads_nil_iff.1 hreads
      exact .stop (range_eq_ok_none_iff.2 ⟨hclose, rfl⟩)
    | @symbol l c lexemes ranges hstart hc hitems ih =>
      rcases (reads_append_iff (u := [l]) (v := lexemes)).1 hreads with ⟨middle, hl, hrest⟩
      -- What follows a symbol by itself is another item or the bracket, but never a hyphen.
      have hne : middle.token.lexeme ≠ .plain '-' := by
        cases lexemes with
        | nil =>
          obtain rfl := reads_nil_iff.1 hrest
          rw [hclose]
          simp
        | cons l' _ =>
          rw [(reads_cons_iff.1 hrest).2.1]
          exact hitems.start.2
      exact .next (range_eq_ok_some_iff.2 ⟨l, c, hstart, hc, Or.inl ⟨rfl, hl, hne⟩⟩) (ih hrest)
    | @range l u low high lexemes ranges hstart hlow hupper hhigh hle hitems ih =>
      rcases (reads_append_iff (u := [l, .plain '-', u]) (v := lexemes)).1 hreads with
        ⟨middle, hl, hrest⟩
      exact .next (range_eq_ok_some_iff.2
        ⟨l, low, hstart, hlow, Or.inr ⟨u, high, hupper, hhigh, hle, rfl, hl⟩⟩) (ih hrest)

/-- A character class is read as the grammar has it. -/
theorem characterClass_eq_ok_iff {node : Regex} :
    characterClass opening cursor = .ok node after ↔ ∃ lexemes ranges,
      Items lexemes ranges ∧ node = .characterSet ranges ∧
        Reads cursor (lexemes ++ [.operator ']']) after := by
  -- Every round takes at least one lexeme, so that the rounds suffice.
  have hitem : ∀ cursor item middle, True → range opening cursor = .ok (some item) middle →
      True ∧ middle.left < cursor.left := by
    intro cursor item middle _ h
    refine ⟨trivial, ?_⟩
    rcases range_eq_ok_some_iff.1 h with ⟨l, low, -, -, ⟨-, hreads, -⟩ |
      ⟨u, high, -, -, -, -, hreads⟩⟩
    · exact hreads.left_lt (by simp)
    · exact hreads.left_lt (by simp)
  have hmany : ∀ ranges middle, many (range opening) cursor = .ok ranges middle ↔
      Repeats (range opening) cursor ranges middle :=
    fun _ _ => many_eq_ok_iff (fun _ => True) hitem trivial
  rw [characterClass, bind_eq_ok_iff]
  simp only [hmany, repeats_range_iff, advance_bind_eq_ok_iff, pure_eq_ok_iff]
  constructor
  · intro h
    rcases h with ⟨ranges, middle, ⟨hclose, lexemes, hitems, hreads⟩, last, hadvance, rfl, rfl⟩
    refine ⟨lexemes, ranges, hitems, rfl, reads_append_iff.2 ⟨middle, hreads, ?_⟩⟩
    exact reads_single_iff.2 ⟨by simp, hclose, hadvance⟩
  · intro h
    rcases h with ⟨lexemes, ranges, hitems, rfl, hreads⟩
    rcases reads_append_iff.1 hreads with ⟨middle, hreads, hlast⟩
    rcases reads_single_iff.1 hlast with ⟨-, hclose, hadvance⟩
    exact ⟨ranges, middle, ⟨hclose, lexemes, hitems, hreads⟩, after, hadvance, rfl, rfl⟩

end CharacterClasses

/-- Whether a lexeme is a quantifier. -/
def IsQuantifier (l : Lexeme) : Prop :=
  l = .operator '+' ∨ l = .operator '*' ∨ l = .operator '?'

theorem Quantifies.isQuantifier {l : Lexeme} {node outer : Regex} (h : Quantifies l node outer) :
    IsQuantifier l := by
  cases h <;> simp [IsQuantifier]

section Quantifiers

variable {cursor after : Cursor} {node outer : Regex}

theorem quantified_eq_some_iff {token : Token} :
    quantified token node = some outer ↔ Quantifies token.lexeme node outer := by
  unfold quantified
  constructor
  · intro h
    split at h
    next hl =>
      rw [hl, ← Option.some.inj h]
      exact .plus node
    next hl =>
      rw [hl, ← Option.some.inj h]
      exact .star node
    next hl =>
      rw [hl, ← Option.some.inj h]
      exact .question node
    next => exact absurd h (by simp)
  · intro h
    generalize token.lexeme = l at h
    cases h <;> rfl

theorem quantified_eq_none_iff {token : Token} :
    quantified token node = none ↔ ¬ IsQuantifier token.lexeme := by
  constructor
  · intro h hquantifier
    rcases hquantifier with hl | hl | hl <;> simp [quantified, hl] at h
  · intro h
    cases hquantified : quantified token node with
    | none => rfl
    | some outer => exact absurd (quantified_eq_some_iff.1 hquantified).isQuantifier h

/-- Without a quantifier next, there is nothing to read. -/
theorem exists_quantified_iff (h : ¬ IsQuantifier cursor.token.lexeme) :
    (∃ lexemes, Reads cursor lexemes after ∧ Quantified cursor.depth lexemes node outer ∧
      ¬ IsQuantifier after.token.lexeme) ↔ node = outer ∧ cursor = after := by
  constructor
  · intro hfound
    rcases hfound with ⟨lexemes, hreads, hquantified, -⟩
    cases hquantified with
    | nil => exact ⟨rfl, (reads_nil_iff.1 hreads).symm⟩
    | cons hl _ _ =>
      -- The first lexeme would be the next one, which is no quantifier.
      rw [(reads_cons_iff.1 hreads).2.1] at h
      exact absurd hl.isQuantifier h
  · intro hfound
    rcases hfound with ⟨rfl, rfl⟩
    exact ⟨[], .nil _, .nil _, h⟩

/-- Where the count is not below the number of tokens left, all quantifiers are read. -/
theorem quantifiers_eq_ok_iff {count : Nat} (hcount : cursor.left ≤ count) :
    quantifiers count node cursor = .ok outer after ↔ ∃ lexemes,
      Reads cursor lexemes after ∧ Quantified cursor.depth lexemes node outer ∧
        ¬ IsQuantifier after.token.lexeme := by
  induction count generalizing cursor node with
  | zero =>
    -- No token is left, so the count runs out where there is nothing to read.
    have hend := Cursor.left_eq_zero_iff.1 (Nat.le_zero.1 hcount)
    rw [quantifiers, pure_eq_ok_iff, exists_quantified_iff]
    rw [hend]
    simp [IsQuantifier]
  | succ count ih =>
    rw [quantifiers, peek_bind_apply]
    cases hquantified : quantified cursor.token node with
    | none =>
      have hstop := quantified_eq_none_iff.1 hquantified
      exact pure_eq_ok_iff.trans (exists_quantified_iff hstop).symm
    | some mid =>
      have hmid := quantified_eq_some_iff.1 hquantified
      have hend : cursor.token.lexeme ≠ .finish := by
        intro hfinish
        rw [hfinish] at hmid
        cases hmid
      simp only [advance_bind_eq_ok_iff, get_bind_apply, check_eq_ok_iff]
      constructor
      · intro h
        rcases h with ⟨next, hadvance, hheight, hrest⟩
        have hlt := (advance_spec hadvance).2.2 hend
        rcases (ih (by omega)).1 hrest with ⟨lexemes, hreads, hlast, hstop⟩
        -- The limit is looked at behind the quantifier, where the depth is what it was.
        have hdepth := (advance_eq_ok_iff.1 hadvance).2.1
        rw [hdepth] at hlast hheight
        exact ⟨_, .cons hend hadvance hreads, .cons hmid (by omega) hlast, hstop⟩
      · intro h
        rcases h with ⟨lexemes, hreads, hlast, hstop⟩
        cases hlast with
        | nil =>
          obtain rfl := reads_nil_iff.1 hreads
          exact absurd hmid.isQuantifier hstop
        | @cons l lexemes _ outer' _ hl hheight hlast =>
          rcases reads_cons_iff.1 hreads with ⟨-, rfl, next, hadvance, hrest⟩
          obtain rfl : mid = outer' :=
            Option.some.inj (hquantified.symm.trans (quantified_eq_some_iff.2 hl))
          have hlt := (advance_spec hadvance).2.2 hend
          have hdepth := (advance_eq_ok_iff.1 hadvance).2.1
          rw [← hdepth] at hlast hheight
          exact ⟨next, hadvance, by omega, (ih (by omega)).2 ⟨lexemes, hrest, hlast, hstop⟩⟩

end Quantifiers

end Pattern

end FiniteState
