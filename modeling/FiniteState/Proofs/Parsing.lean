import FiniteState.Proofs.Classes

/-!
# The Parser Reads the Grammar

Rule by rule, a reader succeeds exactly on what the grammar derives by that rule, and ends right
behind it. Read forwards, this is soundness: the tree that comes out has a derivation. Read
backwards, it is completeness: what has a derivation is read, although the reader decides with one
token of lookahead what to read next. For that the lexemes behind a part matter. A term with its
quantifiers is read only up to a lexeme that is no quantifier, an expression up to a bar, a
parenthesis or the end.

The rules call each other through the reader of what stands inside parentheses, which every rule
takes as an argument. Up to `alternation_eq_ok_iff` that reader is any that reads groups one level
deeper (`ReadsGroup`), and is asked about only as long as the limit allows for another level.
`readsGroup_insideGroup` ties the knot, by induction on the number of groups that may still be
opened.

Whether a branch is empty is found out from the position of the next token before and behind it.
Positions grow with every token, so this is the same as having consumed no lexeme.

## Main definitions

* `Pattern.EndsExpression`, `Pattern.EndsBranches`: Where expressions and branches end.
* `Pattern.ReadsGroup`: A reader reads what the grammar has for a group.
* `Pattern.branchesRule`: The rule for branches that may be empty, or may not.

## Theorems

* `Pattern.term_eq_ok_iff`, `Pattern.suffix_eq_ok_iff`, `Pattern.expression_eq_ok_iff`,
  `Pattern.alternation_eq_ok_iff`: Each rule is read as the grammar has it.
* `Pattern.readsGroup_insideGroup`: So is what stands inside parentheses.
* `Pattern.parse_eq_ok_iff`: A pattern is read as the trees that the grammar derives.
* `Pattern.parse_iff_grammar`: The parser recognises the grammar, which has one tree for a pattern.
-/

namespace FiniteState

namespace Pattern

/-- Whether an expression ends before a lexeme. -/
def EndsExpression (l : Lexeme) : Prop :=
  l = .finish ∨ l = .operator '|' ∨ l = .operator ')'

/-- Whether branches end before a lexeme. -/
def EndsBranches (l : Lexeme) : Prop :=
  l = .finish ∨ l = .operator ')'

/-- A reader reads what the grammar has for a group at a depth, up to a parenthesis or the end. -/
def ReadsGroup (reader : Reader Regex) (depth : Int) : Prop :=
  ∀ cursor node after, cursor.depth = depth → cursor.Placed →
    (reader cursor = .ok node after ↔ ∃ lexemes, Reads cursor lexemes after ∧
      Derives depth .group lexemes node ∧ EndsBranches after.token.lexeme)

section Terms

variable {inside : Reader Regex} {cursor after : Cursor} {node : Regex} {opening : Token}

theorem accept_eq_ok_true_iff {operator : Char} :
    accept operator cursor = .ok true after ↔ Reads cursor [.operator operator] after := by
  rw [accept, peek_bind_apply, reads_single_iff]
  by_cases h : cursor.token.lexeme = .operator operator
  · rw [if_pos (isOperator_eq_true_iff.2 h), advance_bind_eq_ok_iff]
    simp [pure_eq_ok_iff, h]
  · rw [if_neg fun hop => h (isOperator_eq_true_iff.1 hop), pure_eq_ok_iff]
    simp [h]

/-- After an opening parenthesis, a group and a closing parenthesis are read, unless the group lies
    too deep. -/
theorem group_eq_ok_iff (hplaced : cursor.Placed)
    (hinside : cursor.depth + 1 ≤ maxNesting → ReadsGroup inside (cursor.depth + 1)) :
    group inside opening cursor = .ok node after ↔ cursor.depth + 1 ≤ maxNesting ∧
      ∃ lexemes, Derives (cursor.depth + 1) .group lexemes node ∧
        Reads cursor (lexemes ++ [.operator ')']) after := by
  -- The group is read one level deeper, from a cursor that differs in its depth only.
  have hgroup : ∀ found middle, cursor.depth + 1 ≤ maxNesting →
      (inside { cursor with depth := cursor.depth + 1 } = .ok found middle ↔ ∃ lexemes,
        Reads { cursor with depth := cursor.depth + 1 } lexemes middle ∧
          Derives (cursor.depth + 1) .group lexemes found ∧ EndsBranches middle.token.lexeme) :=
    fun found middle hdepth => hinside hdepth _ found middle rfl hplaced
  rw [group, deeper_eq_ok_iff]
  simp only [get_bind_apply, check_eq_ok_iff, bind_eq_ok_iff, not_lt, gt_iff_lt]
  constructor
  · intro h
    rcases h with ⟨inner, ⟨hdepth, found, middle, hfound, closed, last, haccept, hlast⟩, rfl⟩
    rcases (hgroup found middle hdepth).1 hfound with ⟨lexemes, hreads, hderives, -⟩
    cases closed with
    | false => exact absurd hlast reject_ne_ok
    | true =>
      rcases pure_eq_ok_iff.1 hlast with ⟨rfl, rfl⟩
      have hall := reads_append_iff.2 ⟨middle, hreads, accept_eq_ok_true_iff.1 haccept⟩
      have hback : last.depth - 1 = cursor.depth := by
        rw [hall.depth_eq]
        exact Int.add_sub_cancel _ _
      rw [hback]
      exact ⟨hdepth, lexemes, hderives, hall.withDepth cursor.depth⟩
  · intro h
    rcases h with ⟨hdepth, lexemes, hderives, hreads⟩
    rcases reads_append_iff.1 (hreads.withDepth (cursor.depth + 1)) with ⟨middle, hinner, hclose⟩
    have hends : EndsBranches middle.token.lexeme := Or.inr (reads_single_iff.1 hclose).2.1
    have hfound := (hgroup node middle hdepth).2 ⟨lexemes, hinner, hderives, hends⟩
    have hclosed := accept_eq_ok_true_iff.2 hclose
    refine ⟨_, ⟨hdepth, node, middle, hfound, true, _, hclosed, pure_eq_ok_iff.2 ⟨rfl, rfl⟩⟩, ?_⟩
    have hdepth' := hreads.depth_eq
    obtain ⟨token, pos, rest, depth⟩ := after
    simp only [Cursor.mk.injEq, true_and] at hdepth' ⊢
    omega

/-- A term is read as the grammar has it. -/
theorem term_eq_ok_iff (hend : cursor.token.lexeme ≠ .finish)
    (hinside : cursor.depth + 1 ≤ maxNesting → ReadsGroup inside (cursor.depth + 1)) :
    term inside cursor = .ok node after ↔ ∃ lexemes, Reads cursor lexemes after ∧
      Derives cursor.depth .term lexemes node := by
  have hgroup : ∀ next, advance cursor = .ok cursor.token next →
      (group inside cursor.token next = .ok node after ↔ cursor.depth + 1 ≤ maxNesting ∧
        ∃ lexemes, Derives (cursor.depth + 1) .group lexemes node ∧
          Reads next (lexemes ++ [.operator ')']) after) := by
    intro next hadvance
    have hdepth := (advance_eq_ok_iff.1 hadvance).2.1
    rw [← hdepth] at hinside ⊢
    exact group_eq_ok_iff (advance_spec hadvance).2.1 hinside
  rw [term, peek_bind_apply]
  constructor
  · intro h
    -- Read forwards, the next token decides which term there is.
    change EStateM.run _ cursor = _ at h
    split at h
    next hl =>
      rcases advance_bind_eq_ok_iff.1 h with ⟨next, hadvance, hpure⟩
      rcases pure_eq_ok_iff.1 hpure with ⟨rfl, rfl⟩
      exact ⟨_, reads_single_iff.2 ⟨by simp, hl, hadvance⟩, .wildcard⟩
    next hl =>
      rcases advance_bind_eq_ok_iff.1 h with ⟨next, hadvance, hrest⟩
      rcases (hgroup next hadvance).1 hrest with ⟨hdepth, lexemes, hderives, hreads⟩
      exact ⟨_, reads_cons_iff.2 ⟨by simp, hl, next, hadvance, hreads⟩,
        .parentheses hdepth hderives⟩
    next hl =>
      rcases advance_bind_eq_ok_iff.1 h with ⟨next, hadvance, hrest⟩
      rcases characterClass_eq_ok_iff.1 hrest with ⟨lexemes, ranges, hitems, rfl, hreads⟩
      exact ⟨_, reads_cons_iff.2 ⟨by simp, hl, next, hadvance, hreads⟩, .characterClass hitems⟩
    next => exact absurd h reject_ne_ok
    next c hl =>
      rcases advance_bind_eq_ok_iff.1 h with ⟨next, hadvance, hpure⟩
      rcases pure_eq_ok_iff.1 hpure with ⟨rfl, rfl⟩
      exact ⟨_, reads_single_iff.2 ⟨by simp, hl, hadvance⟩, .plain c⟩
    next c hl =>
      rcases advance_bind_eq_ok_iff.1 h with ⟨next, hadvance, hpure⟩
      rcases pure_eq_ok_iff.1 hpure with ⟨rfl, rfl⟩
      exact ⟨_, reads_single_iff.2 ⟨by simp, hl, hadvance⟩, .escaped c⟩
    next hl => exact absurd hl hend
  · intro h
    rcases h with ⟨lexemes, hreads, hderives⟩
    -- Read backwards, the first lexeme of the term is the next token.
    cases hderives with
    | wildcard =>
      rcases reads_single_iff.1 hreads with ⟨-, hl, hadvance⟩
      rw [hl]
      exact advance_bind_eq_ok_iff.2 ⟨after, hadvance, pure_eq_ok_iff.2 ⟨rfl, rfl⟩⟩
    | plain c =>
      rcases reads_single_iff.1 hreads with ⟨-, hl, hadvance⟩
      rw [hl]
      exact advance_bind_eq_ok_iff.2 ⟨after, hadvance, pure_eq_ok_iff.2 ⟨rfl, rfl⟩⟩
    | escaped c =>
      rcases reads_single_iff.1 hreads with ⟨-, hl, hadvance⟩
      rw [hl]
      exact advance_bind_eq_ok_iff.2 ⟨after, hadvance, pure_eq_ok_iff.2 ⟨rfl, rfl⟩⟩
    | characterClass hitems =>
      rcases reads_cons_iff.1 hreads with ⟨-, hl, next, hadvance, hrest⟩
      rw [hl]
      exact advance_bind_eq_ok_iff.2
        ⟨next, hadvance, characterClass_eq_ok_iff.2 ⟨_, _, hitems, rfl, hrest⟩⟩
    | parentheses hdepth hinner =>
      rcases reads_cons_iff.1 hreads with ⟨-, hl, next, hadvance, hrest⟩
      rw [hl]
      exact advance_bind_eq_ok_iff.2
        ⟨next, hadvance, (hgroup next hadvance).2 ⟨hdepth, _, hinner, hrest⟩⟩

/-- A term with its quantifiers is read as the grammar has it. -/
theorem suffix_eq_ok_iff (hend : cursor.token.lexeme ≠ .finish)
    (hinside : cursor.depth + 1 ≤ maxNesting → ReadsGroup inside (cursor.depth + 1)) :
    suffix inside cursor = .ok node after ↔ ∃ lexemes, Reads cursor lexemes after ∧
      Derives cursor.depth .suffix lexemes node ∧ ¬ IsQuantifier after.token.lexeme := by
  rw [suffix, bind_eq_ok_iff]
  simp only [get_bind_apply, quantifiers_eq_ok_iff (Cursor.left_le _), term_eq_ok_iff hend hinside]
  constructor
  · intro h
    rcases h with ⟨inner, middle, ⟨lexemes, hreads, hterm⟩, quantifiers, hrest, hquantified, hstop⟩
    -- The quantifiers are checked at the depth where the cursor is, which reading the term has
    -- restored.
    rw [hreads.depth_eq] at hquantified
    exact ⟨_, reads_append_iff.2 ⟨middle, hreads, hrest⟩, .suffix hterm hquantified, hstop⟩
  · intro h
    rcases h with ⟨_, hreads, hderives, hstop⟩
    cases hderives with
    | suffix hterm hquantified =>
      rcases reads_append_iff.1 hreads with ⟨middle, hreads, hrest⟩
      rw [← hreads.depth_eq] at hquantified
      exact ⟨_, middle, ⟨_, hreads, hterm⟩, _, hrest, hquantified, hstop⟩

end Terms

theorem StartsTerm.not_endsExpression {l : Lexeme} (h : StartsTerm l) : ¬ EndsExpression l := by
  intro hends
  rcases hends with rfl | rfl | rfl
  · exact h
  · simp [StartsTerm] at h
  · simp [StartsTerm] at h

theorem StartsTerm.not_isQuantifier {l : Lexeme} (h : StartsTerm l) : ¬ IsQuantifier l := by
  rintro (rfl | rfl | rfl) <;> simp [StartsTerm] at h

theorem EndsExpression.not_isQuantifier {l : Lexeme} (h : EndsExpression l) :
    ¬ IsQuantifier l := by
  rcases h with rfl | rfl | rfl <;> simp [IsQuantifier]

section Expressions

variable {inside : Reader Regex} {cursor after : Cursor} {node : Regex} {depth : Int}

theorem nextSuffix_eq (inside : Reader Regex) (cursor : Cursor) :
    (EndsExpression cursor.token.lexeme ∧ nextSuffix inside cursor = .ok none cursor) ∨
      (¬ EndsExpression cursor.token.lexeme ∧
        nextSuffix inside cursor = (some <$> suffix inside) cursor) := by
  have hends : (cursor.token.atEnd || cursor.token.isOperator '|' ||
      cursor.token.isOperator ')') = true ↔ EndsExpression cursor.token.lexeme := by
    rw [Bool.or_eq_true, Bool.or_eq_true, atEnd_eq_true_iff, isOperator_eq_true_iff,
      isOperator_eq_true_iff, or_assoc, EndsExpression]
  by_cases h : EndsExpression cursor.token.lexeme
  · refine Or.inl ⟨h, ?_⟩
    rw [nextSuffix, peek_bind_apply, if_pos (hends.2 h)]
    rfl
  · refine Or.inr ⟨h, ?_⟩
    rw [nextSuffix, peek_bind_apply, if_neg fun hend => h (hends.1 hend)]

theorem nextSuffix_eq_ok_none_iff :
    nextSuffix inside cursor = .ok none after ↔
      EndsExpression cursor.token.lexeme ∧ after = cursor := by
  rcases nextSuffix_eq inside cursor with ⟨h, heq⟩ | ⟨h, heq⟩
  · simp [heq, h, eq_comm]
  · simp [heq, h, map_eq_ok_iff]

theorem nextSuffix_eq_ok_some_iff :
    nextSuffix inside cursor = .ok (some node) after ↔
      ¬ EndsExpression cursor.token.lexeme ∧ suffix inside cursor = .ok node after := by
  rcases nextSuffix_eq inside cursor with ⟨h, heq⟩ | ⟨h, heq⟩
  · simp [heq, h]
  · simp [heq, h, map_eq_ok_iff]

theorem ne_finish_of_not_endsExpression {l : Lexeme} (h : ¬ EndsExpression l) : l ≠ .finish :=
  fun hl => h (Or.inl hl)

/-- The rounds up to the end of an expression read suffixed terms. -/
theorem repeats_nextSuffix_iff {nodes : List Regex} (hdepth : cursor.depth = depth)
    (hinside : depth + 1 ≤ maxNesting → ReadsGroup inside (depth + 1)) :
    Repeats (nextSuffix inside) cursor nodes after ↔ EndsExpression after.token.lexeme ∧
      ∃ parts : List (List Lexeme × Regex), parts.map Prod.snd = nodes ∧
        (∀ part ∈ parts, Derives depth .suffix part.1 part.2) ∧
          Reads cursor (parts.flatMap Prod.fst) after := by
  constructor
  · intro h
    induction h with
    | stop h =>
      rcases nextSuffix_eq_ok_none_iff.1 h with ⟨hends, rfl⟩
      exact ⟨hends, [], rfl, by simp, .nil _⟩
    | @next cursor middle after node nodes h _ ih =>
      rcases nextSuffix_eq_ok_some_iff.1 h with ⟨hne, hsuffix⟩
      subst hdepth
      rcases (suffix_eq_ok_iff (ne_finish_of_not_endsExpression hne) hinside).1 hsuffix with
        ⟨lexemes, hreads, hderives, -⟩
      rcases ih hreads.depth_eq with ⟨hends, parts, rfl, hparts, hrest⟩
      refine ⟨hends, (lexemes, node) :: parts, rfl, ?_, reads_append_iff.2 ⟨middle, hreads, hrest⟩⟩
      exact List.forall_mem_cons.2 ⟨hderives, hparts⟩
  · intro h
    rcases h with ⟨hends, parts, rfl, hparts, hreads⟩
    induction parts generalizing cursor with
    | nil =>
      obtain rfl := reads_nil_iff.1 hreads
      exact .stop (nextSuffix_eq_ok_none_iff.2 ⟨hends, rfl⟩)
    | cons part parts ih =>
      rcases List.forall_mem_cons.1 hparts with ⟨hpart, hothers⟩
      have hreads' : Reads cursor (part.1 ++ parts.flatMap Prod.fst) after := hreads
      rcases reads_append_iff.1 hreads' with ⟨middle, hfirst, hrest⟩
      -- What follows a suffixed term is another one or the end of the expression, but never a
      -- quantifier.
      have hstop : ¬ IsQuantifier middle.token.lexeme := by
        cases parts with
        | nil =>
          obtain rfl := reads_nil_iff.1 hrest
          exact hends.not_isQuantifier
        | cons other parts =>
          rcases (hothers other List.mem_cons_self).suffix_start with ⟨l, rest, hother, hl⟩
          rw [List.flatMap_cons, hother, List.cons_append] at hrest
          rw [(reads_cons_iff.1 hrest).2.1]
          exact hl.not_isQuantifier
      have hstart : ¬ EndsExpression cursor.token.lexeme := by
        rcases hpart.suffix_start with ⟨l, rest, hlexemes, hl⟩
        rw [hlexemes] at hfirst
        rw [(reads_cons_iff.1 hfirst).2.1]
        exact hl.not_endsExpression
      subst hdepth
      have hsuffix := (suffix_eq_ok_iff (ne_finish_of_not_endsExpression hstart) hinside).2
        ⟨part.1, hfirst, hpart, hstop⟩
      exact .next (nextSuffix_eq_ok_some_iff.2 ⟨hstart, hsuffix⟩)
        (ih hfirst.depth_eq hothers hrest)

theorem expression_eq (inside : Reader Regex) :
    expression inside = (do return inRow (← many (nextSuffix inside))) := by
  unfold expression
  refine bind_congr fun nodes => ?_
  unfold inRow
  rcases nodes with _ | ⟨first, _ | ⟨second, others⟩⟩ <;> rfl

/-- An expression is read as the grammar has it. -/
theorem expression_eq_ok_iff (hdepth : cursor.depth = depth)
    (hinside : depth + 1 ≤ maxNesting → ReadsGroup inside (depth + 1)) :
    expression inside cursor = .ok node after ↔ ∃ lexemes, Reads cursor lexemes after ∧
      Derives depth .expression lexemes node ∧ EndsExpression after.token.lexeme := by
  -- A round consumes at least one token and restores the depth, so the rounds end before the fuel
  -- does.
  have hitem : ∀ cursor value middle, cursor.depth = depth →
      nextSuffix inside cursor = .ok (some value) middle →
        middle.depth = depth ∧ middle.left < cursor.left := by
    rintro cursor value middle rfl h
    rcases nextSuffix_eq_ok_some_iff.1 h with ⟨hne, hsuffix⟩
    rcases (suffix_eq_ok_iff (ne_finish_of_not_endsExpression hne) hinside).1 hsuffix with
      ⟨lexemes, hreads, hderives, -⟩
    rcases hderives.suffix_start with ⟨l, rest, rfl, -⟩
    exact ⟨hreads.depth_eq, hreads.left_lt (List.cons_ne_nil _ _)⟩
  have hmany : ∀ nodes middle, many (nextSuffix inside) cursor = .ok nodes middle ↔
      Repeats (nextSuffix inside) cursor nodes middle :=
    fun _ _ => many_eq_ok_iff (fun cursor => cursor.depth = depth) hitem hdepth
  rw [expression_eq, bind_eq_ok_iff]
  simp only [hmany, repeats_nextSuffix_iff hdepth hinside, pure_eq_ok_iff]
  constructor
  · intro h
    rcases h with ⟨_, _, ⟨hends, parts, rfl, hparts, hreads⟩, rfl, rfl⟩
    exact ⟨_, hreads, .expression parts hparts, hends⟩
  · intro h
    rcases h with ⟨_, hreads, hderives, hends⟩
    cases hderives with
    | expression parts hparts => exact ⟨_, after, ⟨hends, parts, rfl, hparts, hreads⟩, rfl, rfl⟩

/-- A branch is an expression. Its flag tells whether it holds no lexeme. -/
theorem branch_eq_ok_iff {empty : Bool} (hplaced : cursor.Placed) (hdepth : cursor.depth = depth)
    (hinside : depth + 1 ≤ maxNesting → ReadsGroup inside (depth + 1)) :
    branch inside cursor = .ok (node, empty) after ↔ ∃ lexemes, Reads cursor lexemes after ∧
      Derives depth .expression lexemes node ∧ EndsExpression after.token.lexeme ∧
        (empty = true ↔ lexemes = []) := by
  rw [branch, peek_bind_apply, bind_eq_ok_iff]
  simp only [peek_bind_apply, pure_eq_ok_iff, Prod.mk.injEq, expression_eq_ok_iff hdepth hinside]
  constructor
  · intro h
    rcases h with ⟨_, _, ⟨lexemes, hreads, hderives, hends⟩, ⟨rfl, rfl⟩, rfl⟩
    refine ⟨lexemes, hreads, hderives, hends, ?_⟩
    rw [beq_iff_eq, hreads.position_eq_iff hplaced]
  · intro h
    rcases h with ⟨lexemes, hreads, hderives, hends, hempty⟩
    refine ⟨node, after, ⟨lexemes, hreads, hderives, hends⟩, ⟨rfl, ?_⟩, rfl⟩
    rw [Bool.eq_iff_iff, hempty, beq_iff_eq, hreads.position_eq_iff hplaced]

end Expressions

section Branches

variable {inside : Reader Regex} {cursor after : Cursor} {node : Regex} {depth : Int}
  {allowEmpty firstEmpty : Bool}

theorem nextBranch_eq_ok_none_iff :
    nextBranch inside allowEmpty firstEmpty cursor = .ok none after ↔
      cursor.token.lexeme ≠ .operator '|' ∧ after = cursor := by
  rw [nextBranch, peek_bind_apply]
  by_cases h : cursor.token.lexeme = .operator '|'
  · rw [if_pos (isOperator_eq_true_iff.2 h)]
    simp only [bind_eq_ok_iff, check_eq_ok_iff, pure_eq_ok_iff, reduceCtorEq, false_and, and_false,
      exists_false, h, ne_eq, not_true_eq_false]
  · rw [if_neg fun hop => h (isOperator_eq_true_iff.1 hop), pure_eq_ok_iff]
    simp [h, eq_comm]

/-- A round reads a bar and a branch. Where a branch may not be empty, neither may the first. -/
theorem nextBranch_eq_ok_some_iff (hdepth : cursor.depth = depth)
    (hinside : depth + 1 ≤ maxNesting → ReadsGroup inside (depth + 1)) :
    nextBranch inside allowEmpty firstEmpty cursor = .ok (some node) after ↔ ∃ lexemes,
      Reads cursor (.operator '|' :: lexemes) after ∧ Derives depth .expression lexemes node ∧
        EndsExpression after.token.lexeme ∧
          (allowEmpty = true ∨ (firstEmpty = false ∧ lexemes ≠ [])) := by
  rw [nextBranch, peek_bind_apply]
  by_cases h : cursor.token.lexeme = .operator '|'
  · rw [if_pos (isOperator_eq_true_iff.2 h), advance_bind_eq_ok_iff]
    simp only [bind_eq_ok_iff, check_eq_ok_iff, pure_eq_ok_iff, Option.some.injEq]
    -- Behind the bar there is a branch, whose flag says whether it is empty.
    have hbranch : ∀ next found middle, advance cursor = .ok cursor.token next →
        (branch inside next = .ok found middle ↔ ∃ lexemes, Reads next lexemes middle ∧
          Derives depth .expression lexemes found.1 ∧ EndsExpression middle.token.lexeme ∧
            (found.2 = true ↔ lexemes = [])) := by
      intro next found middle hadvance
      have hnext : next.depth = depth := (advance_eq_ok_iff.1 hadvance).2.1.trans hdepth
      exact branch_eq_ok_iff (advance_spec hadvance).2.1 hnext hinside
    constructor
    · intro h
      rcases h with ⟨next, hadvance, found, _, hfound, hallowed, rfl, rfl⟩
      rcases (hbranch next found _ hadvance).1 hfound with
        ⟨lexemes, hreads, hderives, hends, hempty⟩
      refine ⟨lexemes, reads_cons_iff.2 ⟨by simp, h, next, hadvance, hreads⟩, hderives, hends, ?_⟩
      rw [← not_iff_not, Bool.not_eq_true] at hempty
      cases allowEmpty with
      | true => exact Or.inl rfl
      | false =>
        simp only [Bool.not_false, Bool.true_and, Bool.or_eq_true, not_or, Bool.not_eq_true,
          hempty] at hallowed
        exact Or.inr hallowed
    · intro h
      rcases h with ⟨lexemes, hreads, hderives, hends, hallowed⟩
      rcases reads_cons_iff.1 hreads with ⟨-, -, next, hadvance, hrest⟩
      refine ⟨next, hadvance, (node, decide (lexemes = [])), after, ?_, ?_, rfl, rfl⟩
      · exact (hbranch next _ after hadvance).2
          ⟨lexemes, hrest, hderives, hends, by simp⟩
      · rcases hallowed with rfl | ⟨rfl, hne⟩ <;> simp [*]
  · rw [if_neg fun hop => h (isOperator_eq_true_iff.1 hop), pure_eq_ok_iff]
    simp [h, reads_cons_iff]

/-- An expression ends before branches with a bar before each, and before what ends branches. -/
theorem endsExpression_of_reads_bars {others : List (List Lexeme × Regex)}
    (hends : EndsBranches after.token.lexeme)
    (h : Reads cursor (others.flatMap fun branch => .operator '|' :: branch.1) after) :
    EndsExpression cursor.token.lexeme := by
  cases others with
  | nil =>
    rw [← reads_nil_iff.1 h]
    exact hends.imp_right Or.inr
  | cons other others => exact Or.inr (Or.inl (reads_cons_iff.1 h).2.1)

/-- The rounds after the first branch read branches with a bar before each. -/
theorem repeats_nextBranch_iff {nodes : List Regex} (hcursor : EndsExpression cursor.token.lexeme)
    (hdepth : cursor.depth = depth)
    (hinside : depth + 1 ≤ maxNesting → ReadsGroup inside (depth + 1)) :
    Repeats (nextBranch inside allowEmpty firstEmpty) cursor nodes after ↔
      EndsBranches after.token.lexeme ∧ ∃ others : List (List Lexeme × Regex),
        others.map Prod.snd = nodes ∧
          (∀ branch ∈ others, Derives depth .expression branch.1 branch.2 ∧
            (allowEmpty = true ∨ (firstEmpty = false ∧ branch.1 ≠ []))) ∧
          Reads cursor (others.flatMap fun branch => .operator '|' :: branch.1) after := by
  constructor
  · intro h
    induction h with
    | stop h =>
      rcases nextBranch_eq_ok_none_iff.1 h with ⟨hbar, rfl⟩
      refine ⟨?_, [], rfl, by simp, .nil _⟩
      -- A branch ends at the end of the pattern, at a bar or at a closing parenthesis, and there is
      -- no bar.
      rcases hcursor with hend | hend | hend
      · exact Or.inl hend
      · exact absurd hend hbar
      · exact Or.inr hend
    | @next cursor middle after node nodes h _ ih =>
      rcases (nextBranch_eq_ok_some_iff hdepth hinside).1 h with
        ⟨lexemes, hreads, hderives, hends, hallowed⟩
      rcases ih hends (hreads.depth_eq.trans hdepth) with ⟨hlast, others, rfl, hothers, hrest⟩
      refine ⟨hlast, (lexemes, node) :: others, rfl, ?_, ?_⟩
      · exact List.forall_mem_cons.2 ⟨⟨hderives, hallowed⟩, hothers⟩
      · exact reads_append_iff.2 ⟨middle, hreads, hrest⟩
  · intro h
    rcases h with ⟨hends, others, rfl, hothers, hreads⟩
    induction others generalizing cursor with
    | nil =>
      obtain rfl := reads_nil_iff.1 hreads
      refine .stop (nextBranch_eq_ok_none_iff.2 ⟨?_, rfl⟩)
      rcases hends with hend | hend <;> rw [hend] <;> simp
    | cons branch others ih =>
      rcases List.forall_mem_cons.1 hothers with ⟨⟨hderives, hallowed⟩, hrest⟩
      have hreads' : Reads cursor ((.operator '|' :: branch.1) ++
          others.flatMap fun branch => .operator '|' :: branch.1) after := hreads
      rcases reads_append_iff.1 hreads' with ⟨middle, hfirst, hlast⟩
      -- What follows a branch is the next bar or what follows all of them.
      have hmiddle := endsExpression_of_reads_bars hends hlast
      have hbranch := (nextBranch_eq_ok_some_iff hdepth hinside).2
        ⟨branch.1, hfirst, hderives, hmiddle, hallowed⟩
      exact .next hbranch (ih hmiddle (hfirst.depth_eq.trans hdepth) hrest hlast)

theorem alternation_eq (inside : Reader Regex) (allowEmpty : Bool) :
    alternation inside allowEmpty = (do
      let found ← branch inside
      return sideBySide found.1 (← many (nextBranch inside allowEmpty found.2))) := by
  unfold alternation
  refine bind_congr fun found => bind_congr fun others => ?_
  unfold sideBySide
  cases others <;> rfl

/-- The rule for branches that may be empty, or may not. -/
def branchesRule (allowEmpty : Bool) : Rule :=
  if allowEmpty then .group else .alternation

/-- Branches derive what they do, empty ones only where they are allowed. -/
theorem derives_branchesRule_iff {lexemes : List Lexeme} :
    Derives depth (branchesRule allowEmpty) lexemes node ↔
      ∃ (first : List Lexeme × Regex) (others : List (List Lexeme × Regex)),
        Derives depth .expression first.1 first.2 ∧
          (∀ branch ∈ others, Derives depth .expression branch.1 branch.2 ∧
            (allowEmpty = true ∨ (first.1 ≠ [] ∧ branch.1 ≠ []))) ∧
          lexemes = withBars first others ∧ node = sideBySide first.2 (others.map Prod.snd) := by
  cases allowEmpty with
  | true =>
    constructor
    · intro h
      cases h with
      | group first others hbranches =>
        rcases List.forall_mem_cons.1 hbranches with ⟨hfirst, hothers⟩
        exact ⟨first, others, hfirst, fun b hb => ⟨hothers b hb, Or.inl rfl⟩, rfl, rfl⟩
    · intro h
      rcases h with ⟨first, others, hfirst, hothers, rfl, rfl⟩
      exact .group first others (List.forall_mem_cons.2 ⟨hfirst, fun b hb => (hothers b hb).1⟩)
  | false =>
    constructor
    · intro h
      cases h with
      | alternation first others hbranches hempty =>
        rcases List.forall_mem_cons.1 hbranches with ⟨hfirst, hothers⟩
        refine ⟨first, others, hfirst, fun b hb => ⟨hothers b hb, Or.inr ?_⟩, rfl, rfl⟩
        rcases hempty with rfl | hempty
        · exact absurd hb List.not_mem_nil
        · exact ⟨hempty first List.mem_cons_self, hempty b (List.mem_cons_of_mem _ hb)⟩
    · intro h
      rcases h with ⟨first, others, hfirst, hothers, rfl, rfl⟩
      -- A single branch may be empty. If there are more, none is.
      refine .alternation first others
        (List.forall_mem_cons.2 ⟨hfirst, fun b hb => (hothers b hb).1⟩) ?_
      cases others with
      | nil => exact Or.inl rfl
      | cons other others =>
        have hne : ∀ b ∈ other :: others, first.1 ≠ [] ∧ b.1 ≠ [] :=
          fun b hb => (hothers b hb).2.resolve_left (by simp)
        refine Or.inr (List.forall_mem_cons.2 ⟨(hne other List.mem_cons_self).1, ?_⟩)
        exact fun b hb => (hne b hb).2

/-- Branches are read as the grammar has them. -/
theorem alternation_eq_ok_iff (allowEmpty : Bool) (hplaced : cursor.Placed)
    (hdepth : cursor.depth = depth)
    (hinside : depth + 1 ≤ maxNesting → ReadsGroup inside (depth + 1)) :
    alternation inside allowEmpty cursor = .ok node after ↔ ∃ lexemes,
      Reads cursor lexemes after ∧ Derives depth (branchesRule allowEmpty) lexemes node ∧
        EndsBranches after.token.lexeme := by
  -- Each round consumes a bar.
  have hmany : ∀ (empty : Bool) (middle : Cursor) (nodes : List Regex), middle.depth = depth →
      (many (nextBranch inside allowEmpty empty) middle = .ok nodes after ↔
        Repeats (nextBranch inside allowEmpty empty) middle nodes after) := by
    intro empty middle nodes hmiddle
    refine many_eq_ok_iff (fun cursor => cursor.depth = depth) ?_ hmiddle
    rintro cursor value last hcursor h
    rcases (nextBranch_eq_ok_some_iff hcursor hinside).1 h with ⟨lexemes, hreads, -⟩
    exact ⟨hreads.depth_eq.trans hcursor, hreads.left_lt (List.cons_ne_nil _ _)⟩
  rw [alternation_eq, bind_eq_ok_iff]
  simp only [derives_branchesRule_iff]
  constructor
  · intro h
    rcases h with ⟨⟨first, empty⟩, middle, hfirst, hrest⟩
    rcases (branch_eq_ok_iff hplaced hdepth hinside).1 hfirst with
      ⟨lexemes, hreads, hderives, hends, hempty⟩
    have hmiddle := hreads.depth_eq.trans hdepth
    rcases bind_eq_ok_iff.1 hrest with ⟨nodes, last, hnodes, hpure⟩
    rcases pure_eq_ok_iff.1 hpure with ⟨rfl, rfl⟩
    rcases (repeats_nextBranch_iff hends hmiddle hinside).1 ((hmany _ _ _ hmiddle).1 hnodes) with
      ⟨hlast, others, rfl, hothers, hrest⟩
    refine ⟨_, reads_append_iff.2 ⟨middle, hreads, hrest⟩,
      ⟨(lexemes, first), others, hderives, fun b hb => ⟨(hothers b hb).1, ?_⟩, rfl, rfl⟩, hlast⟩
    -- The reader knows emptiness by the position, the grammar by the lexemes.
    refine (hothers b hb).2.imp_right fun h => ⟨?_, h.2⟩
    rw [← not_iff_not, Bool.not_eq_true] at hempty
    exact hempty.1 h.1
  · intro h
    rcases h with ⟨_, hreads, ⟨first, others, hfirst, hothers, rfl, rfl⟩, hends⟩
    rcases reads_append_iff.1 hreads with ⟨middle, hreads, hrest⟩
    have hmiddle := hreads.depth_eq.trans hdepth
    have hmiddleEnds := endsExpression_of_reads_bars hends hrest
    refine ⟨(first.2, decide (first.1 = [])), middle, ?_, ?_⟩
    · exact (branch_eq_ok_iff hplaced hdepth hinside).2
        ⟨first.1, hreads, hfirst, hmiddleEnds, by simp⟩
    · refine bind_eq_ok_iff.2 ⟨others.map Prod.snd, after, ?_, pure_eq_ok_iff.2 ⟨rfl, rfl⟩⟩
      refine (hmany _ _ _ hmiddle).2 ((repeats_nextBranch_iff hmiddleEnds hmiddle hinside).2
        ⟨hends, others, rfl, fun b hb => ⟨(hothers b hb).1, ?_⟩, hrest⟩)
      exact (hothers b hb).2.imp_right fun h => ⟨by simpa using h.1, h.2⟩

end Branches

/-- What stands inside parentheses is read as the grammar has it, as long as the number of groups
    that may still be opened is counted right. -/
theorem readsGroup_insideGroup (room : Nat) (depth : Int) (hroom : depth + room = maxNesting) :
    ReadsGroup (insideGroup (room + 1)) depth := by
  induction room generalizing depth with
  | zero =>
    intro cursor node after hdepth hplaced
    refine alternation_eq_ok_iff true hplaced hdepth fun hle => ?_
    -- No group can be opened any more, and the limit does not allow another level.
    simp at hroom
    omega
  | succ room ih =>
    intro cursor node after hdepth hplaced
    -- One level deeper there is room for one group less.
    refine alternation_eq_ok_iff true hplaced hdepth fun _ => ih (depth + 1) ?_
    push_cast at hroom
    omega

/-- Inside any number of groups, the reader of the next is the one that the rules are given. -/
theorem readsGroup_of_depth {depth : Int} (h : depth + 1 ≤ maxNesting) :
    ReadsGroup (insideGroup (maxNesting - depth).toNat) (depth + 1) := by
  have hroom : (maxNesting - depth).toNat = (maxNesting - (depth + 1)).toNat + 1 := by omega
  rw [hroom]
  exact readsGroup_insideGroup _ _ (by omega)

theorem start_eq_ok_iff {pattern : List Char} {depth : Int} {cursor : Cursor} :
    Cursor.start pattern depth = .ok cursor ↔ cursor.depth = depth ∧
      readToken 0 pattern = ⟨.ok cursor.token, cursor.pos, cursor.rest⟩ := by
  obtain ⟨token, pos, rest, depth'⟩ := cursor
  unfold Cursor.start
  rcases readToken 0 pattern with ⟨outcome, pos', rest'⟩
  cases outcome with
  | error error => simp [Except.map]
  | ok found =>
    simp only [Except.map, Except.ok.injEq, Cursor.mk.injEq, Reading.mk.injEq]
    constructor
    · intro h
      rcases h with ⟨rfl, rfl, rfl, rfl⟩
      exact ⟨rfl, rfl, rfl, rfl⟩
    · intro h
      rcases h with ⟨rfl, rfl, rfl, rfl⟩
      exact ⟨rfl, rfl, rfl, rfl⟩

/-- A whole pattern is an alternation up to the end. -/
theorem wholePattern_eq_ok_iff {cursor after : Cursor} {node : Regex} (hplaced : cursor.Placed) :
    wholePattern cursor = .ok node after ↔ after.token.lexeme = .finish ∧ ∃ lexemes,
      Reads cursor lexemes after ∧ Derives cursor.depth .alternation lexemes node := by
  have hreader : ∀ found middle, Rule.alternation.reader cursor = .ok found middle ↔ ∃ lexemes,
      Reads cursor lexemes middle ∧ Derives cursor.depth .alternation lexemes found ∧
        EndsBranches middle.token.lexeme :=
    fun _ _ => alternation_eq_ok_iff false hplaced rfl readsGroup_of_depth
  rw [wholePattern, bind_eq_ok_iff]
  simp only [peek_bind_apply, hreader]
  constructor
  · intro h
    rcases h with ⟨found, middle, ⟨lexemes, hreads, hderives, -⟩, hrest⟩
    -- What ends an alternation may be a parenthesis, which is no end of a pattern.
    cases hsymbol : middle.token.symbol? with
    | none =>
      rw [hsymbol] at hrest
      rcases pure_eq_ok_iff.1 hrest with ⟨rfl, rfl⟩
      exact ⟨symbol?_eq_none_iff.1 hsymbol, lexemes, hreads, hderives⟩
    | some c =>
      rw [hsymbol] at hrest
      exact absurd hrest reject_ne_ok
  · intro h
    rcases h with ⟨hend, lexemes, hreads, hderives⟩
    refine ⟨node, after, ⟨lexemes, hreads, hderives, Or.inl hend⟩, ?_⟩
    rw [symbol?_eq_none_iff.2 hend]
    exact pure_eq_ok_iff.2 ⟨rfl, rfl⟩

/-- A pattern is read as a tree exactly if the grammar derives that tree from it. -/
theorem parse_eq_ok_iff {pattern : List Char} {node : Regex} :
    parse pattern = .ok node ↔ Parses pattern node := by
  rw [parse, FiniteState.bind_eq_ok_iff]
  simp only [start_eq_ok_iff]
  constructor
  · intro h
    rcases h with ⟨cursor, ⟨hdepth, hread⟩, h⟩
    cases hwhole : wholePattern cursor with
    | error error after =>
      rw [hwhole] at h
      exact absurd h (by simp)
    | ok found after =>
      simp only [hwhole, Except.ok.injEq] at h
      rw [h] at hwhole
      rcases (wholePattern_eq_ok_iff (placed_of_readToken hread)).1 hwhole with
        ⟨hend, lexemes, hreads, hderives⟩
      rw [hdepth] at hderives
      exact ⟨lexemes, (exists_reads_iff hread).1 ⟨after, hreads, hend⟩, hderives⟩
  · intro h
    rcases h with ⟨lexemes, hspelling, hderives⟩
    rcases hspelling.exists_readToken 0 with ⟨token, pos, rest, hread⟩
    -- The first token can be read, since the whole pattern is spelled.
    obtain ⟨cursor, hdepth, hcursor⟩ : ∃ cursor : Cursor, cursor.depth = 0 ∧
        readToken 0 pattern = ⟨.ok cursor.token, cursor.pos, cursor.rest⟩ :=
      ⟨⟨token, pos, rest, 0⟩, rfl, hread⟩
    rcases (exists_reads_iff hcursor).2 hspelling with ⟨after, hreads, hend⟩
    rw [← hdepth] at hderives
    have hwhole := (wholePattern_eq_ok_iff (placed_of_readToken hcursor)).2
      ⟨hend, lexemes, hreads, hderives⟩
    refine ⟨cursor, ⟨hdepth, hcursor⟩, ?_⟩
    rw [hwhole]

/-- The parser recognises exactly its grammar and builds exactly its tree: it returns the one tree
    that the grammar has for a pattern, and reports an error if there is none. -/
theorem parse_iff_grammar (pattern : List Char) :
    (∀ node, parse pattern = .ok node ↔ Parses pattern node) ∧
      ((¬ ∃ node, Parses pattern node) ↔ ∃ error, parse pattern = .error error) ∧
        ∀ node other, Parses pattern node → Parses pattern other → node = other := by
  refine ⟨fun node => parse_eq_ok_iff, ?_, ?_⟩
  · simp only [← parse_eq_ok_iff]
    cases parse pattern <;> simp
  · intro node other hnode hother
    exact Except.ok.inj ((parse_eq_ok_iff.2 hnode).symm.trans (parse_eq_ok_iff.2 hother))

end Pattern

end FiniteState
