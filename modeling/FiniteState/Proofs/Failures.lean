import FiniteState.Proofs.Places

/-!
# How Readers End

Reading a pattern may fail in the middle of any rule, within groups of any depth, and from the
tokenizer just as from the parser. Two things hold wherever it does. The cursor has moved as the
tokenizer moves it, with the depth of groups as it was; and the error names a place that its message
is about.

Both are one invariant of the readers. `Frame` fixes what a reader may not change, the pattern and
the depth, and how far the cursor had come. `Frame.Sound` says of a reader that from outside of
character classes it gets to such a place again, or fails within the frame. The frame is the same
for all steps of a rule, and that of a group is one deeper, which is undone when the group ends,
also by a failure.

A message is often about a token that was consumed long before: the bracket that opened, the bar,
the quantifier. It is to the point because of where that token was then, so what the rules are given
about such a token is that an error at its position is to the point.

## Main definitions

* `Pattern.Ends`: How a reader ends, by success or by failure.
* `Pattern.Frame`: What is fixed while a pattern is read.
* `Pattern.Frame.Sound`: A reader keeps within a frame.
* `Pattern.advanceTimes`: Consuming a number of tokens.

## Theorems

* `Pattern.Ends.bind`, `Pattern.ends_upTo`: How a condition is carried from step to step.
* `Pattern.sound_alternation`, `Pattern.sound_insideGroup`, `Pattern.sound_reader`: The rules keep
  within any frame.
* `Pattern.parse_error_points`: An error of the parser points at a token that its message is about.
* `Pattern.reader_keepsState`: How a rule leaves the cursor, whether it succeeds or fails.
-/

namespace FiniteState

namespace Pattern

/-- A reader ends with a value and a cursor that meet a condition, or with an error and a cursor
    that meet another. -/
def Ends {α : Type} (holds : α → Cursor → Prop) (fails : Error → Cursor → Prop) :
    EStateM.Result Error Cursor α → Prop
  | .ok value after => holds value after
  | .error error after => fails error after

section Ends

variable {α β : Type} {holds : α → Cursor → Prop} {also : β → Cursor → Prop}
  {fails : Error → Cursor → Prop} {reader : Reader α} {cursor : Cursor}

theorem Ends.bind {next : α → Reader β} (h : Ends holds fails (reader cursor))
    (hnext : ∀ value after, reader cursor = .ok value after → holds value after →
      Ends also fails (next value after)) : Ends also fails ((reader >>= next) cursor) := by
  change Ends also fails (EStateM.bind reader next cursor)
  unfold EStateM.bind
  cases hreader : reader cursor with
  | ok value after =>
    rw [hreader] at h
    exact hnext value after hreader h
  | error error after =>
    rw [hreader] at h
    exact h

theorem Ends.map {f : α → β} (h : Ends (fun value => also (f value)) fails (reader cursor)) :
    Ends also fails ((f <$> reader) cursor) := by
  change Ends also fails (EStateM.map f reader cursor)
  unfold EStateM.map
  cases hreader : reader cursor with
  | ok value after =>
    rw [hreader] at h
    exact h
  | error error after =>
    rw [hreader] at h
    exact h

/-- What holds of success may be shown apart from what holds of failure. -/
theorem Ends.of_ok (h : Ends (fun _ _ => True) fails (reader cursor))
    (hok : ∀ value after, reader cursor = .ok value after → holds value after) :
    Ends holds fails (reader cursor) := by
  cases hreader : reader cursor with
  | ok value after => exact hok value after hreader
  | error error after =>
    rw [hreader] at h
    exact h

/-- What comes after a check is read only if the check does not reject. -/
theorem ends_check {condition : Prop} [Decidable condition] {problem : Problem} {token : Token}
    {next : Unit → Reader α} (hreject : condition → fails ⟨problem, token.position⟩ cursor)
    (hnext : ¬ condition → Ends holds fails (next () cursor)) :
    Ends holds fails
      ((if condition then reject problem token >>= next else next ()) cursor) := by
  split
  next h => exact hreject h
  next h => exact hnext h

/-- A loop ends as each of its rounds does. -/
theorem ends_upTo {item : Reader (Option α)} {invariant : Cursor → Prop}
    (hitem : ∀ cursor, invariant cursor → Ends (fun _ => invariant) fails (item cursor))
    (count : Nat) (h : invariant cursor) :
    Ends (fun _ => invariant) fails (upTo item count cursor) := by
  induction count generalizing cursor with
  | zero => exact h
  | succ count ih =>
    refine (hitem cursor h).bind fun first middle _ hmiddle => ?_
    cases first with
    | none => exact hmiddle
    | some first => exact (ih hmiddle).bind fun others after _ hafter => hafter

theorem ends_many {item : Reader (Option α)} {invariant : Cursor → Prop}
    (hitem : ∀ cursor, invariant cursor → Ends (fun _ => invariant) fails (item cursor))
    (h : invariant cursor) : Ends (fun _ => invariant) fails (many item cursor) :=
  ends_upTo hitem _ h

end Ends

/-- What is fixed while a pattern is read: the pattern, the depth of groups, and a position that is
    not gone back behind. -/
structure Frame where
  pattern : List Char
  depth : Int
  floor : Nat

namespace Frame

/-- A cursor is within a frame, behind lexemes of a kind. -/
def Holds (frame : Frame) (kind : List Lexeme → Prop) (cursor : Cursor) : Prop :=
  cursor.depth = frame.depth ∧ frame.floor ≤ cursor.pos ∧
    ∃ lexemes, kind lexemes ∧ cursor.Behind frame.pattern lexemes

/-- A failure leaves the cursor within a frame, with an error that is to the point. -/
def Fails (frame : Frame) (error : Error) (after : Cursor) : Prop :=
  after.depth = frame.depth ∧ frame.floor ≤ after.pos ∧ after.pos ≤ frame.pattern.length ∧
    Points frame.pattern error

/-- From outside of character classes, a reader gets outside of them again or fails within the
    frame. -/
def Sound {α : Type} (frame : Frame) (reader : Reader α) : Prop :=
  ∀ cursor, frame.Holds Closed cursor →
    Ends (fun _ => frame.Holds Closed) frame.Fails (reader cursor)

/-- The frame of a group. -/
def deeper (frame : Frame) : Frame :=
  { frame with depth := frame.depth + 1 }

end Frame

section Steps

variable {frame : Frame} {kind : List Lexeme → Prop} {lexemes others : List Lexeme}
  {cursor after : Cursor} {problem : Problem} {opening : Token}

/-- An error that is to the point may be reported from any cursor within the frame. -/
theorem Frame.Holds.fails (h : frame.Holds kind cursor) {error : Error}
    (hpoints : Points frame.pattern error) : frame.Fails error cursor := by
  rcases h with ⟨hdepth, hfloor, lexemes, -, hbehind⟩
  exact ⟨hdepth, hfloor, hbehind.pos_le, hpoints⟩

theorem Frame.Holds.behind (h : frame.Holds (· = lexemes) cursor) :
    cursor.Behind frame.pattern lexemes := by
  rcases h with ⟨-, -, _, rfl, hbehind⟩
  exact hbehind

theorem Frame.Holds.append (h : frame.Holds (· = lexemes) cursor)
    (hreads : Reads cursor others after) (hkind : kind (lexemes ++ others)) :
    frame.Holds kind after := by
  rcases h with ⟨hdepth, hfloor, _, rfl, hbehind⟩
  exact ⟨hreads.depth_eq.trans hdepth, hfloor.trans hreads.pos_le, _, hkind, hbehind.append hreads⟩

/-- Consuming a token fails only where the tokenizer does. -/
theorem ends_advance (h : frame.Holds kind cursor) :
    Ends (fun token after => token = cursor.token ∧
      (cursor.token.lexeme ≠ .finish → Reads cursor [cursor.token.lexeme] after))
      frame.Fails (advance cursor) := by
  rcases h with ⟨hdepth, hfloor, lexemes, -, hbehind⟩
  cases hadvance : advance cursor with
  | ok token after =>
    obtain rfl := (advance_eq_ok_iff.1 hadvance).1
    exact ⟨rfl, fun hend => reads_single_iff.2 ⟨hend, rfl, hadvance⟩⟩
  | error error after =>
    -- What the failed reading has taken away is gone, so the position moves on here as well.
    have hlength := readToken_length cursor.pos cursor.rest
    have hpattern := hbehind.pos_add_length
    unfold advance at hadvance
    rcases hread : readToken cursor.pos cursor.rest with ⟨outcome, pos, rest⟩
    rw [hread] at hadvance hlength
    cases outcome with
    | ok token => exact absurd hadvance (by simp)
    | error reason =>
      simp only [EStateM.Result.error.injEq] at hadvance
      rcases hadvance with ⟨rfl, rfl⟩
      dsimp only at hlength
      exact ⟨hdepth, hfloor.trans hlength.1, by dsimp only; omega, hbehind.points_readToken hread⟩

/-- Consuming a token outside of character classes that opens none stays outside of them. -/
theorem Frame.Holds.closed_of_reads (h : frame.Holds Closed cursor) {l : Lexeme}
    (hreads : Reads cursor [l] after) (hl : l ≠ .operator '[') : frame.Holds Closed after := by
  rcases h with ⟨hdepth, hfloor, lexemes, hclosed, hbehind⟩
  exact Frame.Holds.append ⟨hdepth, hfloor, lexemes, rfl, hbehind⟩ hreads (hclosed.snoc hl)

theorem Frame.Sound.bind {α β : Type} {reader : Reader α} {next : α → Reader β}
    (h : frame.Sound reader) (hnext : ∀ value, frame.Sound (next value)) :
    frame.Sound (reader >>= next) :=
  fun cursor hcursor => (h cursor hcursor).bind fun value after _ hafter => hnext value after hafter

theorem sound_pure {α : Type} (value : α) : frame.Sound (pure value : Reader α) :=
  fun _ hcursor => hcursor

theorem sound_accept {operator : Char} (hoperator : operator ≠ '[') :
    frame.Sound (accept operator) := by
  intro cursor hcursor
  rw [accept, peek_bind_apply]
  split
  next h =>
    have hl := isOperator_eq_true_iff.1 h
    refine (ends_advance hcursor).bind fun _ after _ hadvance => ?_
    rw [hl] at hadvance
    exact hcursor.closed_of_reads (hadvance.2 (by simp)) (by simpa using hoperator)
  next => exact hcursor

end Steps

/-! ### Character classes -/

section Classes

variable {frame : Frame} {lexemes : List Lexeme} {cursor : Cursor} {opening : Token}

/-- Within a class, behind a symbol, the upper end is at fault if it is the bracket, and the class
    if there is none. -/
theorem ends_upperEnd (hopening : Points frame.pattern ⟨.unmatchedBracket, opening.position⟩)
    {l : Lexeme} (hclass : InClass lexemes) (hl : StartsItem l)
    (h : frame.Holds (· = lexemes ++ [l]) cursor) :
    Ends (fun _ => frame.Holds fun _ => True) frame.Fails (upperEnd opening cursor) := by
  rw [upperEnd, peek_bind_apply]
  split
  next hhyphen =>
    have hlexeme := isHyphen_eq_true_iff.1 hhyphen
    refine (ends_advance h).bind fun _ middle _ hadvance => ?_
    rw [hlexeme] at hadvance
    have hmiddle : frame.Holds (· = lexemes ++ [l, .plain '-']) middle :=
      h.append (hadvance.2 (by simp)) (by simp)
    rw [peek_bind_apply]
    -- Behind the hyphen the pattern may have ended, and a bracket is no end of a range.
    cases hsymbol : middle.token.symbol? with
    | none => exact hmiddle.fails hopening
    | some high =>
      have hend := (symbol?_eq_some_iff.1 hsymbol).ne_finish
      refine ends_check (fun hclose => hmiddle.fails ?_) fun hclose => ?_
      · exact hmiddle.behind.points_bare (Or.inl (isOperator_eq_true_iff.1 hclose))
          (.upperEnd hclass hl)
      · refine (ends_advance hmiddle).bind fun _ after _ hadvance => ?_
        exact hmiddle.append (hadvance.2 hend) trivial
  next => exact h.append (.nil _) trivial

/-- A round within a class fails at the bracket that opened the class, or within its own item. -/
theorem fails_range (hopening : Points frame.pattern ⟨.unmatchedBracket, opening.position⟩)
    (hclass : InClass lexemes) (h : frame.Holds (· = lexemes) cursor) :
    Ends (fun _ _ => True) frame.Fails (range opening cursor) := by
  rw [range, peek_bind_apply]
  split
  next => trivial
  next hclose =>
    cases hsymbol : cursor.token.symbol? with
    | none => exact h.fails hopening
    | some low =>
      have hlow := symbol?_eq_some_iff.1 hsymbol
      refine ends_check (fun hhyphen => h.fails ?_) fun hhyphen => ?_
      · exact h.behind.points_bare (Or.inr (isHyphen_eq_true_iff.1 hhyphen)) (.hyphen hclass)
      · have hstart : StartsItem cursor.token.lexeme :=
          ⟨fun hl => hclose (isOperator_eq_true_iff.2 hl),
            fun hl => hhyphen (isHyphen_eq_true_iff.2 hl)⟩
        refine (ends_advance h).bind fun _ middle _ hadvance => ?_
        have hreads := hadvance.2 hlow.ne_finish
        have hmiddle : frame.Holds (· = lexemes ++ [cursor.token.lexeme]) middle :=
          h.append hreads rfl
        have hupperEnd := ends_upperEnd hopening hclass hstart hmiddle
        refine hupperEnd.bind fun upper after hupper hafter => ends_check ?_ fun _ => trivial
        intro hlt
        -- Only a pair can have its ends exchanged, and its lower end was the next token here.
        rcases upperEnd_eq_ok_iff.1 hupper with ⟨-, rfl, -⟩ | ⟨u, high, -, hhigh, rfl, hrest⟩
        · exact absurd hlt (Char.not_lt.2 (Char.le_refl low))
        · have hall := (reads_append_iff (u := [cursor.token.lexeme])).2 ⟨middle, hreads, hrest⟩
          exact hafter.fails (h.behind.points_order hclass hall hlow hhigh hlt)

/-- A round within a class reads an item, or fails within the frame. -/
theorem ends_range (hopening : Points frame.pattern ⟨.unmatchedBracket, opening.position⟩)
    (h : frame.Holds InClass cursor) :
    Ends (fun _ => frame.Holds InClass) frame.Fails (range opening cursor) := by
  rcases h with ⟨hdepth, hfloor, lexemes, hclass, hbehind⟩
  -- The lexemes of the class so far are named, so that those of the item can be added to them.
  have hcursor : frame.Holds (· = lexemes) cursor := ⟨hdepth, hfloor, _, rfl, hbehind⟩
  refine (fails_range hopening hclass hcursor).of_ok fun found after hfound => ?_
  cases found with
  | none =>
    obtain rfl := (range_eq_ok_none_iff.1 hfound).2
    exact ⟨hdepth, hfloor, lexemes, hclass, hbehind⟩
  | some item =>
    rcases range_eq_ok_some_iff.1 hfound with ⟨l, low, hstart, hlow, ⟨rfl, hreads, -⟩ |
      ⟨u, high, hu, hhigh, hle, rfl, hreads⟩⟩
    · exact hcursor.append hreads (hclass.append (.symbol hstart hlow .nil))
    · exact hcursor.append hreads (hclass.append (.range hstart hlow hu hhigh hle .nil))

/-- Behind its opening bracket a class is read to its end, or fails within the frame. -/
theorem ends_characterClass (hopening : Points frame.pattern ⟨.unmatchedBracket, opening.position⟩)
    (hclosed : Closed lexemes) (h : frame.Holds (· = lexemes ++ [.operator '[']) cursor) :
    Ends (fun _ => frame.Holds Closed) frame.Fails (characterClass opening cursor) := by
  have hclass : frame.Holds InClass cursor := by
    rcases h with ⟨hdepth, hfloor, _, rfl, hbehind⟩
    exact ⟨hdepth, hfloor, _, ⟨lexemes, [], [], hclosed, .nil, rfl⟩, hbehind⟩
  refine Ends.of_ok ?_ fun node after hnode => ?_
  · refine (ends_many (fun _ => ends_range hopening) hclass).bind fun _ middle _ hmiddle => ?_
    exact (ends_advance hmiddle).bind fun _ _ _ _ => trivial
  · rcases characterClass_eq_ok_iff.1 hnode with ⟨items, ranges, hitems, -, hreads⟩
    refine h.append hreads ?_
    rw [List.append_assoc]
    exact hclosed.characterClass hitems

end Classes

/-! ### The rules -/

section Rules

variable {frame : Frame} {inside : Reader Regex} {cursor : Cursor} {opening : Token}

/-- The depth is what it was when a group ends, also where it fails. -/
theorem sound_deeper {α : Type} {body : Reader α} (h : frame.deeper.Sound body) :
    frame.Sound (deeper body) := by
  rintro cursor ⟨hdepth, hfloor, lexemes, hclosed, hbehind⟩
  -- The depth goes up by one at the beginning and down by one at the end.
  have hback : ∀ {after : Cursor}, after.depth = frame.depth + 1 → after.depth - 1 = frame.depth :=
    fun hafter => by rw [hafter, Int.add_sub_cancel]
  have hbody := h { cursor with depth := cursor.depth + 1 }
    ⟨congrArg (· + 1) hdepth, hfloor, lexemes, hclosed, hbehind.withDepth _⟩
  unfold Pattern.deeper
  cases hreader : body { cursor with depth := cursor.depth + 1 } with
  | ok value after =>
    rw [hreader] at hbody
    rcases hbody with ⟨hafter, hpos, lexemes', hclosed', hbehind'⟩
    exact ⟨hback hafter, hpos, lexemes', hclosed', hbehind'.withDepth _⟩
  | error error after =>
    rw [hreader] at hbody
    rcases hbody with ⟨hafter, hpos, hlength, hpoints⟩
    exact ⟨hback hafter, hpos, hlength, hpoints⟩

theorem sound_group (hdeep : Points frame.pattern ⟨.tooDeep, opening.position⟩)
    (hunmatched : Points frame.pattern ⟨.unmatchedParenthesis, opening.position⟩)
    (hinside : frame.depth + 1 ≤ maxNesting → frame.deeper.Sound inside) :
    frame.Sound (group inside opening) := by
  refine sound_deeper fun cursor hcursor => ?_
  rw [get_bind_apply]
  refine ends_check (fun _ => hcursor.fails hdeep) fun hle => ?_
  -- The check leaves room for what stands inside, one deeper.
  have hroom : frame.depth + 1 ≤ maxNesting := by
    have hdepth : cursor.depth = frame.depth + 1 := hcursor.1
    rw [← hdepth]
    exact not_lt.1 hle
  refine (hinside hroom cursor hcursor).bind fun node middle _ hmiddle => ?_
  refine (sound_accept (by decide) middle hmiddle).bind fun closed after _ hafter => ?_
  cases closed with
  | true => exact hafter
  | false => exact hafter.fails hunmatched

/-- A term is at fault if it begins with an operator that none begins with. -/
theorem sound_term (hinside : frame.depth + 1 ≤ maxNesting → frame.deeper.Sound inside) :
    frame.Sound (term inside) := by
  intro cursor hcursor
  rcases hcursor with ⟨hdepth, hfloor, lexemes, hclosed, hbehind⟩
  have hexact : frame.Holds (· = lexemes) cursor := ⟨hdepth, hfloor, _, rfl, hbehind⟩
  have hcursor : frame.Holds Closed cursor := ⟨hdepth, hfloor, _, hclosed, hbehind⟩
  -- One token by itself is consumed, whatever becomes of it.
  have hadvance : ∀ node, cursor.token.lexeme ≠ .finish → cursor.token.lexeme ≠ .operator '[' →
      Ends (fun _ => frame.Holds Closed) frame.Fails
        ((do let _ ← advance; return node : Reader Regex) cursor) := by
    intro node hend hopen
    refine (ends_advance hcursor).bind fun _ after _ hadvance => ?_
    exact hcursor.closed_of_reads (hadvance.2 hend) hopen
  rw [term, peek_bind_apply]
  change Ends _ _ (EStateM.run _ cursor)
  split
  next hl => exact hadvance _ (by simp [hl]) (by simp [hl])
  next hl =>
    refine (ends_advance hcursor).bind fun _ after _ hadvance => ?_
    have hafter := hcursor.closed_of_reads (hadvance.2 (by simp [hl])) (by simp [hl])
    -- Both errors of a group are about the parenthesis, which was the next token before.
    exact sound_group (hbehind.points_bare (Or.inl hl) (.tooDeep hclosed (by simp)))
      (hbehind.points_bare (Or.inl hl) (.unmatchedParenthesis hclosed)) hinside after hafter
  next hl =>
    refine (ends_advance hcursor).bind fun _ after _ hadvance => ?_
    rw [hl] at hadvance
    exact ends_characterClass (hbehind.points_bare (Or.inl hl) (.unmatchedBracket hclosed)) hclosed
      (hexact.append (hadvance.2 (by simp)) rfl)
  next operator hdot hparenthesis hbracket hl =>
    -- Six of the nine operators are left.
    have hleft : operator ∈ [')', '+', '*', '?', ']', '|'] := by
      have hnine := hbehind.isOperator_of_operator hl
      simp only [isOperator, List.contains_eq_mem, List.mem_cons, List.not_mem_nil, or_false,
        decide_eq_true_eq] at hnine ⊢
      tauto
    exact hcursor.fails (hbehind.points_bare (Or.inl hl) (.unexpected hclosed hleft))
  next hl => exact hadvance _ (by simp [hl]) (by simp [hl])
  next hl => exact hadvance _ (by simp [hl]) (by simp [hl])
  next => exact hcursor

/-- A quantifier is at fault if it raises the tree above the limit. -/
theorem sound_quantifiers (count : Nat) (node : Regex) : frame.Sound (quantifiers count node) := by
  induction count generalizing node with
  | zero => exact sound_pure node
  | succ count ih =>
    intro cursor hcursor
    rw [quantifiers, peek_bind_apply]
    cases hquantified : quantified cursor.token node with
    | none => exact hcursor
    | some outer =>
      have hl := (quantified_eq_some_iff.1 hquantified).isQuantifier
      -- The limit is looked at behind the quantifier, but the error is about where that was.
      have hpoints : Points frame.pattern ⟨.tooDeep, cursor.token.position⟩ := by
        rcases hcursor with ⟨-, -, lexemes, hclosed, hbehind⟩
        rcases hl with hl | hl | hl <;>
          exact hbehind.points_bare (Or.inl hl) (.tooDeep hclosed (by simp))
      refine (ends_advance hcursor).bind fun _ after _ hadvance => ?_
      have hafter : frame.Holds Closed after := by
        refine hcursor.closed_of_reads (hadvance.2 ?_) ?_ <;> rcases hl with hl | hl | hl <;>
          simp [hl]
      rw [get_bind_apply]
      exact ends_check (fun _ => hafter.fails hpoints) fun _ => ih outer after hafter

theorem sound_suffix (hinside : frame.depth + 1 ≤ maxNesting → frame.deeper.Sound inside) :
    frame.Sound (suffix inside) :=
  (sound_term hinside).bind fun node cursor hcursor => sound_quantifiers _ node cursor hcursor

theorem sound_nextSuffix (hinside : frame.depth + 1 ≤ maxNesting → frame.deeper.Sound inside) :
    frame.Sound (nextSuffix inside) := by
  intro cursor hcursor
  rcases nextSuffix_eq inside cursor with ⟨-, heq⟩ | ⟨-, heq⟩
  · rw [heq]
    exact hcursor
  · rw [heq]
    exact Ends.map (sound_suffix hinside cursor hcursor)

theorem Frame.Sound.many {α : Type} {item : Reader (Option α)} (h : frame.Sound item) :
    frame.Sound (many item) :=
  fun _ hcursor => ends_many h hcursor

theorem sound_expression (hinside : frame.depth + 1 ≤ maxNesting → frame.deeper.Sound inside) :
    frame.Sound (expression inside) := by
  rw [expression_eq]
  exact (sound_nextSuffix hinside).many.bind fun nodes => sound_pure _

theorem sound_branch (hinside : frame.depth + 1 ≤ maxNesting → frame.deeper.Sound inside) :
    frame.Sound (branch inside) := by
  intro cursor hcursor
  rw [branch, peek_bind_apply]
  exact (sound_expression hinside cursor hcursor).bind fun _ _ _ hafter => hafter

/-- A bar is at fault if there is an empty branch before or behind it where none is allowed. -/
theorem sound_nextBranch (hinside : frame.depth + 1 ≤ maxNesting → frame.deeper.Sound inside)
    (allowEmpty firstEmpty : Bool) : frame.Sound (nextBranch inside allowEmpty firstEmpty) := by
  intro cursor hcursor
  rw [nextBranch, peek_bind_apply]
  split
  next hbar =>
    have hl := isOperator_eq_true_iff.1 hbar
    -- Whether the branch is empty is known behind it only, and the error is about the bar.
    have hpoints : Points frame.pattern ⟨.unexpected '|', cursor.token.position⟩ := by
      rcases hcursor with ⟨-, -, lexemes, hclosed, hbehind⟩
      exact hbehind.points_bare (Or.inl hl) (.unexpected hclosed (by simp))
    refine (ends_advance hcursor).bind fun _ middle _ hadvance => ?_
    have hmiddle := hcursor.closed_of_reads (hadvance.2 (by simp [hl])) (by simp [hl])
    refine (sound_branch hinside middle hmiddle).bind fun found after _ hafter => ?_
    exact ends_check (fun _ => hafter.fails hpoints) fun _ => hafter
  next => exact hcursor

theorem sound_alternation (hinside : frame.depth + 1 ≤ maxNesting → frame.deeper.Sound inside)
    (allowEmpty : Bool) : frame.Sound (alternation inside allowEmpty) := by
  rw [alternation_eq]
  exact (sound_branch hinside).bind fun found =>
    (sound_nextBranch hinside allowEmpty found.2).many.bind fun others => sound_pure _

/-- What stands inside parentheses keeps within the frame, as long as the number of groups that may
    still be opened is counted right. -/
theorem sound_insideGroup (room : Nat) (frame : Frame) (hroom : frame.depth + room = maxNesting) :
    frame.Sound (insideGroup (room + 1)) := by
  induction room generalizing frame with
  | zero =>
    refine sound_alternation (fun hle => ?_) true
    -- No group can be opened any more, and the limit does not allow another level.
    simp at hroom
    omega
  | succ room ih =>
    refine sound_alternation (fun _ => ih frame.deeper ?_) true
    simp only [Frame.deeper]
    push_cast at hroom
    omega

theorem sound_insideGroup_of_depth (h : frame.depth + 1 ≤ maxNesting) :
    frame.deeper.Sound (insideGroup (maxNesting - frame.depth).toNat) := by
  have hroom : (maxNesting - frame.depth).toNat =
      (maxNesting - frame.deeper.depth).toNat + 1 := by
    simp only [Frame.deeper]
    omega
  rw [hroom]
  refine sound_insideGroup _ _ ?_
  simp only [Frame.deeper]
  omega

/-- Every rule keeps within any frame. -/
theorem sound_reader (rule : Rule) : frame.Sound rule.reader := by
  intro cursor hcursor
  rw [Rule.reader, hcursor.1]
  cases rule with
  | term => exact sound_term sound_insideGroup_of_depth cursor hcursor
  | suffix => exact sound_suffix sound_insideGroup_of_depth cursor hcursor
  | expression => exact sound_expression sound_insideGroup_of_depth cursor hcursor
  | alternation => exact sound_alternation sound_insideGroup_of_depth false cursor hcursor
  | group => exact sound_alternation sound_insideGroup_of_depth true cursor hcursor

end Rules

/-! ### Errors point at tokens -/

/-- A new cursor is behind nothing, and closed. -/
theorem holds_start {pattern : List Char} {depth : Int} {cursor : Cursor}
    (h : Cursor.start pattern depth = .ok cursor) :
    Frame.Holds ⟨pattern, depth, cursor.pos⟩ Closed cursor := by
  have hdepth := (start_eq_ok_iff.1 h).1
  refine ⟨hdepth, le_refl _, [], .nil, cursor, ?_, .nil _⟩
  rw [hdepth]
  exact h

/-- What is left behind a pattern is a closing parenthesis, which is at fault then. -/
theorem ends_wholePattern {pattern : List Char} {cursor : Cursor}
    (h : Cursor.start pattern 0 = .ok cursor) :
    Ends (fun _ _ => True) (Frame.Fails ⟨pattern, 0, cursor.pos⟩) (wholePattern cursor) := by
  refine (sound_reader .alternation cursor (holds_start h)).bind fun node after hnode hafter => ?_
  rw [peek_bind_apply]
  cases hsymbol : after.token.symbol? with
  | none => trivial
  | some c =>
    have hplaced := placed_of_readToken (start_eq_ok_iff.1 h).2
    have hends : EndsBranches after.token.lexeme := by
      rcases (alternation_eq_ok_iff false hplaced rfl readsGroup_of_depth).1 hnode with ⟨_, -, -, h⟩
      exact h
    -- Branches end at the end of the pattern or at a closing parenthesis. A token is left, so it is
    -- the latter.
    rcases hends with hend | hclose
    · rw [symbol?_eq_none_iff.2 hend] at hsymbol
      exact absurd hsymbol (by simp)
    · have hshows := symbol?_eq_some_iff.1 hsymbol
      rw [hclose] at hshows
      cases hshows
      refine hafter.fails ?_
      rcases hafter with ⟨-, -, lexemes, hclosed, hbehind⟩
      exact hbehind.points_bare (Or.inl hclose) (.unexpected hclosed (by simp))

/-- The errors of the parser are to the point. The position that is reported is the start of a token
    of the pattern, and the message fits what stands there. -/
theorem parse_error_points (pattern : List Char) (error : Error)
    (h : parse pattern = .error error) :
    error.position < pattern.length ∧ Points pattern error ∧
      error.message = error.problem.message ++ " at position " ++ toString error.position := by
  have hpoints : Points pattern error := by
    rcases FiniteState.bind_eq_error_iff.1 h with hstart | ⟨cursor, hstart, hwhole⟩
    · -- The first token cannot be read.
      rcases hread : readToken 0 pattern with ⟨outcome, pos, rest⟩
      rw [Cursor.start, hread, map_eq_error_iff] at hstart
      obtain rfl := hstart
      rcases blames_of_readToken hread [] with ⟨hposition, hblames⟩
      exact ⟨[], [], pattern, rfl, .nil, hposition, hblames⟩
    -- Else some rule has failed, within the frame of the whole pattern.
    · have hends := ends_wholePattern hstart
      cases hreader : wholePattern cursor with
      | ok node after =>
        rw [hreader] at hwhole
        exact absurd hwhole (by simp)
      | error reason after =>
        rw [hreader] at hwhole hends
        obtain rfl := Except.error.inj hwhole
        exact hends.2.2.2
  refine ⟨hpoints.position_lt, hpoints, ?_⟩
  rw [Error.message, String.append_assoc]
  rfl

/-- The lower end of a range is at fault, although the higher one is the last that was read. -/
theorem parse_error_points_exchanged :
    parse "[b-z\\z-a]".toList = .error ⟨.invalidSet, 4⟩ ∧ 4 < "[b-z\\z-a]".toList.length ∧
      Points "[b-z\\z-a]".toList ⟨.invalidSet, 4⟩ ∧ Error.message ⟨.invalidSet, 4⟩ =
        Problem.invalidSet.message ++ " at position " ++ toString 4 := by
  have h : parse "[b-z\\z-a]".toList = .error ⟨.invalidSet, 4⟩ := by
    cbv
  exact ⟨h, parse_error_points _ _ h⟩

/-! ### The state after a rule -/

/-- Consume a number of tokens. -/
def advanceTimes : Nat → Reader Unit
  | 0 => return ()
  | count + 1 => do
    let _ ← advance
    advanceTimes count

theorem Reads.advanceTimes_eq {cursor after : Cursor} {lexemes : List Lexeme}
    (h : Reads cursor lexemes after) : advanceTimes lexemes.length cursor = .ok () after := by
  induction h with
  | nil => rfl
  | cons _ hadvance _ ih =>
    exact advance_bind_eq_ok_iff.2 ⟨_, hadvance, ih⟩

/-- However a rule ends on a new cursor, the depth of groups is what it was, and the position has
    not gone back and lies within the pattern. Where the rule succeeds, the cursor is one that
    consuming tokens by itself gets to. -/
theorem reader_keepsState (pattern : List Char) (depth : Int) (rule : Rule) (cursor : Cursor)
    (h : Cursor.start pattern depth = .ok cursor) :
    (∀ node after, rule.reader cursor = .ok node after →
      after.depth = depth ∧ cursor.pos ≤ after.pos ∧ after.pos ≤ pattern.length ∧
        ∃ count, advanceTimes count cursor = .ok () after) ∧
      ∀ error after, rule.reader cursor = .error error after →
        after.depth = depth ∧ cursor.pos ≤ after.pos ∧ after.pos ≤ pattern.length := by
  have hends := sound_reader rule cursor (holds_start h)
  constructor
  · intro node after hreader
    rw [hreader] at hends
    rcases hends with ⟨hdepth, hpos, lexemes, -, hbehind⟩
    rcases hbehind with ⟨start, hstart, hreads⟩
    -- The cursor that the lexemes are read from is the new one, since both begin the same pattern.
    rw [hdepth, h] at hstart
    obtain rfl := Except.ok.inj hstart
    exact ⟨hdepth, hpos, Cursor.Behind.pos_le ⟨cursor, by rw [hdepth, h], hreads⟩, _,
      hreads.advanceTimes_eq⟩
  · intro error after hreader
    rw [hreader] at hends
    exact ⟨hends.1, hends.2.1, hends.2.2.1⟩

/-- A group that is not closed and one that is, at a depth that leaves room for them. -/
theorem reader_keepsState_groups :
    (∃ cursor after, Cursor.start "((a".toList 98 = .ok cursor ∧
      Rule.term.reader cursor = .error ⟨.unmatchedParenthesis, 1⟩ after ∧
        after.depth = 98 ∧ cursor.pos ≤ after.pos ∧ after.pos ≤ "((a".toList.length) ∧
    ∃ cursor node after, Cursor.start "(a)b".toList 98 = .ok cursor ∧
      Rule.term.reader cursor = .ok node after ∧
        after.depth = 98 ∧ cursor.pos ≤ after.pos ∧ after.pos ≤ "(a)b".toList.length ∧
          ∃ count, advanceTimes count cursor = .ok () after := by
  have hunclosed : Cursor.start "((a".toList 98 = .ok ⟨⟨.operator '(', 0⟩, 1, ['(', 'a'], 98⟩ := by
    cbv
  have hfails : Rule.term.reader ⟨⟨.operator '(', 0⟩, 1, ['(', 'a'], 98⟩ =
      .error ⟨.unmatchedParenthesis, 1⟩ ⟨⟨.finish, 3⟩, 3, [], 98⟩ := by
    cbv
  have hclosed : Cursor.start "(a)b".toList 98 =
      .ok ⟨⟨.operator '(', 0⟩, 1, ['a', ')', 'b'], 98⟩ := by
    cbv
  have hreads : Rule.term.reader ⟨⟨.operator '(', 0⟩, 1, ['a', ')', 'b'], 98⟩ =
      .ok (.character ['a']) ⟨⟨.plain 'b', 3⟩, 4, [], 98⟩ := by
    cbv
  exact ⟨⟨_, _, hunclosed, hfails, (reader_keepsState _ _ .term _ hunclosed).2 _ _ hfails⟩,
    _, _, _, hclosed, hreads, (reader_keepsState _ _ .term _ hclosed).1 _ _ hreads⟩

end Pattern

end FiniteState
