import FiniteState.Pattern.Parser
import FiniteState.Proofs.Outcomes

/-!
# What the Parser Complains About

When the parser names a character that it did not expect, that character is one of the pattern. This
is an invariant of the cursor: at the beginning of a pattern it has nothing but characters of the
pattern before it, and no reader gets from such a cursor to another one, or to an error about a
character from elsewhere.

The characters of the pattern may be replaced by characters of any kind that the pattern consists
of, and the readers are gone through for any kind. `Keeps` is the law that each of them obeys; it
also carries what is known of the value, since the token that a reader has seen comes back in the
error about it.

## Main definitions

* `Pattern.Token.Drawn`, `Pattern.Cursor.Drawn`, `Pattern.Error.Drawn`: What consists of characters
  of a kind.
* `Pattern.Keeps`, `Pattern.Stays`: A reader keeps to characters of a kind.

## Theorems

* `Pattern.Keeps.bind`, `Pattern.keeps_check`, `Pattern.keeps_advance`, `Pattern.stays_many`: How
  the law is carried from step to step.
* `Pattern.stays_alternation`, `Pattern.stays_insideGroup`: The rules obey it.
* `Pattern.drawn_of_parse`: A character that is not expected is one of the pattern.
-/

namespace FiniteState

namespace Pattern

/-- A token shows a character of a kind, if any. -/
def Token.Drawn (kind : Char → Prop) (token : Token) : Prop :=
  ∀ c, token.symbol? = some c → kind c

/-- From a cursor on, a pattern consists of characters of a kind. -/
structure Cursor.Drawn (kind : Char → Prop) (cursor : Cursor) : Prop where
  token : cursor.token.Drawn kind
  rest : ∀ c ∈ cursor.rest, kind c

/-- An error quotes a character of a kind, if it quotes any as it stands. -/
def Error.Drawn (kind : Char → Prop) (error : Error) : Prop :=
  ∀ c, error.problem = .unexpected c → kind c

/-- From a cursor with characters of a kind before it, a reader gets to such a cursor again, with a
    value that meets a condition, or to an error that quotes such a character. -/
def Keeps {α : Type} (kind : Char → Prop) (holds : α → Prop) (reader : Reader α) : Prop :=
  ∀ cursor, cursor.Drawn kind → match reader cursor with
    | .ok value after => holds value ∧ after.Drawn kind
    | .error error _ => error.Drawn kind

/-- A reader keeps to characters of a kind, whatever its value is. -/
abbrev Stays {α : Type} (kind : Char → Prop) (reader : Reader α) : Prop :=
  Keeps kind (fun _ => True) reader

section Keeps

variable {α β : Type} {kind : Char → Prop} {holds : α → Prop} {holds' : β → Prop}
  {reader : Reader α}

theorem Keeps.bind {next : α → Reader β} (h : Keeps kind holds reader)
    (hnext : ∀ value, holds value → Keeps kind holds' (next value)) :
    Keeps kind holds' (reader >>= next) := by
  intro cursor hcursor
  have hfirst := h cursor hcursor
  -- Only the first reader is opened. The next one is about the cursor that this one leaves.
  change match EStateM.bind reader next cursor with
    | .ok value after => holds' value ∧ after.Drawn kind
    | .error error _ => error.Drawn kind
  unfold EStateM.bind
  cases hreader : reader cursor with
  | ok value middle =>
    rw [hreader] at hfirst
    exact hnext value hfirst.1 middle hfirst.2
  | error error middle =>
    rw [hreader] at hfirst
    exact hfirst

theorem keeps_pure {value : α} (h : holds value) : Keeps kind holds (pure value) :=
  fun _ hcursor => ⟨h, hcursor⟩

theorem keeps_peek : Keeps kind (Token.Drawn kind) peek :=
  fun _ hcursor => ⟨hcursor.token, hcursor⟩

theorem stays_get : Stays kind get :=
  fun _ hcursor => ⟨trivial, hcursor⟩

theorem keeps_reject {problem : Problem} {token : Token}
    (h : ∀ c, problem = .unexpected c → kind c) : Keeps kind holds (reject problem token) :=
  fun _ _ => h

theorem Keeps.ite {condition : Prop} [Decidable condition] {other : Reader α}
    (h : condition → Keeps kind holds reader) (hother : ¬ condition → Keeps kind holds other) :
    Keeps kind holds (if condition then reader else other) := by
  split
  next hcondition => exact h hcondition
  next hcondition => exact hother hcondition

/-- What comes after a check is read only if the check does not reject. -/
theorem keeps_check {condition : Prop} [Decidable condition] {problem : Problem} {token : Token}
    {next : Unit → Reader α} (h : ∀ c, problem = .unexpected c → kind c)
    (hnext : Keeps kind holds (next ())) :
    Keeps kind holds (if condition then reject problem token >>= next else next ()) := by
  have hreject : Keeps kind (fun _ : Unit => False) (reject problem token) := keeps_reject h
  exact Keeps.ite (fun _ => hreject.bind fun _ hfalse => hfalse.elim) fun _ => hnext

/-- What is read of a text shows or quotes characters of the text. -/
def Yields (kind : Char → Prop) (outcome : Except Error Token) : Prop :=
  (∀ token, outcome = .ok token → token.Drawn kind) ∧
    ∀ error, outcome = .error error → error.Drawn kind

theorem yields_ok {token : Token} (h : token.Drawn kind) : Yields kind (.ok token) :=
  ⟨fun _ hsame => Except.ok.inj hsame ▸ h, fun _ hsame => nomatch hsame⟩

theorem yields_error {problem : Problem} {pos : Nat} (h : ∀ c, problem ≠ .unexpected c) :
    Yields kind (.error ⟨problem, pos⟩) := by
  refine ⟨fun _ hsame => (nomatch hsame), fun error hsame c hc => ?_⟩
  obtain rfl := Except.error.inj hsame
  exact absurd hc (h c)

theorem yields_supported {lexeme : Lexeme} {c : Char} {pos : Nat}
    (h : (Token.mk lexeme pos).Drawn kind) : Yields kind (supported lexeme c pos) := by
  unfold supported
  split
  next => exact yields_ok h
  next => exact yields_error fun d hd => nomatch hd

theorem drawn_bareLexeme {c : Char} {pos : Nat} (hc : kind c) :
    (Token.mk (bareLexeme c) pos).Drawn kind := by
  intro d hd
  obtain rfl : c = d := by
    unfold bareLexeme at hd
    split at hd <;> exact Option.some.inj hd
  exact hc

/-- The token that is read is of the text, and so is what follows. -/
theorem yields_readToken (pos : Nat) {text : List Char} (h : ∀ c ∈ text, kind c) :
    Yields kind (readToken pos text).outcome ∧ ∀ c ∈ (readToken pos text).rest, kind c := by
  unfold readToken
  split
  next => exact ⟨yields_ok fun _ hd => (nomatch hd), List.forall_mem_nil _⟩
  next => exact ⟨yields_error fun _ hd => (nomatch hd), List.forall_mem_nil _⟩
  -- An escaped character stands behind the backslash, any other one comes first.
  next c rest =>
    rcases List.forall_mem_cons.1 (List.forall_mem_cons.1 h).2 with ⟨hc, hrest⟩
    exact ⟨yields_supported fun d hd => Option.some.inj hd ▸ hc, hrest⟩
  next c rest _ _ =>
    rcases List.forall_mem_cons.1 h with ⟨hc, hrest⟩
    exact ⟨yields_supported (drawn_bareLexeme hc), hrest⟩

theorem keeps_advance : Keeps kind (Token.Drawn kind) advance := by
  intro cursor hcursor
  rcases yields_readToken cursor.pos hcursor.rest with ⟨⟨htoken, herror⟩, hrest⟩
  unfold advance
  dsimp only
  cases houtcome : (readToken cursor.pos cursor.rest).outcome with
  | ok token => exact ⟨hcursor.token, htoken token houtcome, hrest⟩
  | error error => exact herror error houtcome

theorem stays_upTo {item : Reader (Option α)} (h : Stays kind item) (count : Nat) :
    Stays kind (upTo item count) := by
  induction count with
  | zero => exact keeps_pure trivial
  | succ count ih =>
    refine h.bind fun first _ => ?_
    cases first with
    | none => exact keeps_pure trivial
    | some first => exact ih.bind fun others _ => keeps_pure trivial

theorem stays_many {item : Reader (Option α)} (h : Stays kind item) : Stays kind (many item) :=
  fun cursor hcursor => stays_upTo h (cursor.rest.length + 2) cursor hcursor

/-- The depth of groups has nothing to do with characters. -/
theorem stays_deeper {body : Reader α} (h : Stays kind body) : Stays kind (deeper body) := by
  intro cursor hcursor
  -- The reader runs on the cursor one level deeper, where the same characters are left.
  have hbody := h { cursor with depth := cursor.depth + 1 } ⟨hcursor.token, hcursor.rest⟩
  unfold deeper
  cases hreader : body { cursor with depth := cursor.depth + 1 } with
  | ok value after =>
    rw [hreader] at hbody
    exact ⟨trivial, hbody.2.token, hbody.2.rest⟩
  | error error after =>
    rw [hreader] at hbody
    exact hbody

end Keeps

/-! ### The rules -/

section Rules

variable {kind : Char → Prop} {opening : Token} {inside : Reader Regex}

theorem stays_accept (operator : Char) : Stays kind (accept operator) := by
  refine keeps_peek.bind fun token _ => Keeps.ite (fun _ => ?_) fun _ => keeps_pure trivial
  exact keeps_advance.bind fun _ _ => keeps_pure trivial

theorem stays_upperEnd : Stays kind (upperEnd opening) := by
  refine keeps_peek.bind fun token _ => Keeps.ite (fun _ => ?_) fun _ => keeps_pure trivial
  refine keeps_advance.bind fun _ _ => keeps_peek.bind fun upper _ => ?_
  cases upper.symbol? with
  | none => exact keeps_reject fun _ hc => nomatch hc
  | some c =>
    refine keeps_check (fun _ hc => nomatch hc) ?_
    exact keeps_advance.bind fun _ _ => keeps_pure trivial

theorem stays_range : Stays kind (range opening) := by
  refine keeps_peek.bind fun token _ => Keeps.ite (fun _ => keeps_pure trivial) fun _ => ?_
  cases token.symbol? with
  | none => exact keeps_reject fun _ hc => nomatch hc
  | some low =>
    refine keeps_check (fun _ hc => nomatch hc) ?_
    refine keeps_advance.bind fun _ _ => stays_upperEnd.bind fun upper _ => ?_
    exact keeps_check (fun _ hc => nomatch hc) (keeps_pure trivial)

theorem stays_characterClass : Stays kind (characterClass opening) :=
  (stays_many stays_range).bind fun _ _ => keeps_advance.bind fun _ _ => keeps_pure trivial

theorem stays_group (hinside : Stays kind inside) : Stays kind (group inside opening) := by
  refine stays_deeper (stays_get.bind fun cursor _ => keeps_check (fun _ hc => nomatch hc) ?_)
  refine hinside.bind fun node _ => (stays_accept ')').bind fun _ _ => ?_
  exact Keeps.ite (fun _ => keeps_pure trivial) fun _ => keeps_reject fun _ hc => nomatch hc

/-- An operator that is not expected stands in the pattern. -/
theorem stays_term (hinside : Stays kind inside) : Stays kind (term inside) := by
  refine keeps_peek.bind fun token htoken => ?_
  split
  next => exact keeps_advance.bind fun _ _ => keeps_pure trivial
  next => exact keeps_advance.bind fun _ _ => stays_group hinside
  next => exact keeps_advance.bind fun _ _ => stays_characterClass
  next operator hlexeme =>
    -- The operator that is complained about is the token that was looked at.
    refine keeps_reject fun c hc => htoken c ?_
    rw [Token.symbol?, hlexeme]
    exact congrArg some (Problem.unexpected.inj hc)
  next => exact keeps_advance.bind fun _ _ => keeps_pure trivial
  next => exact keeps_advance.bind fun _ _ => keeps_pure trivial
  next => exact keeps_pure trivial

theorem stays_quantifiers (count : Nat) (node : Regex) : Stays kind (quantifiers count node) := by
  induction count generalizing node with
  | zero => exact keeps_pure trivial
  | succ count ih =>
    refine keeps_peek.bind fun token _ => ?_
    cases quantified token node with
    | none => exact keeps_pure trivial
    | some outer =>
      -- A quantifier that makes the tree too high is reported without a character.
      refine keeps_advance.bind fun _ _ => stays_get.bind fun cursor _ => ?_
      exact keeps_check (fun _ hc => nomatch hc) (ih outer)

theorem stays_suffix (hinside : Stays kind inside) : Stays kind (suffix inside) :=
  (stays_term hinside).bind fun node _ => stays_get.bind fun _ _ => stays_quantifiers _ node

theorem stays_nextSuffix (hinside : Stays kind inside) : Stays kind (nextSuffix inside) := by
  refine keeps_peek.bind fun token _ => Keeps.ite (fun _ => keeps_pure trivial) fun _ => ?_
  rw [map_eq_pure_bind]
  exact (stays_suffix hinside).bind fun _ _ => keeps_pure trivial

theorem stays_expression (hinside : Stays kind inside) : Stays kind (expression inside) := by
  refine (stays_many (stays_nextSuffix hinside)).bind fun nodes _ => ?_
  split <;> exact keeps_pure trivial

theorem stays_branch (hinside : Stays kind inside) : Stays kind (branch inside) :=
  keeps_peek.bind fun _ _ => (stays_expression hinside).bind fun _ _ =>
    keeps_peek.bind fun _ _ => keeps_pure trivial

/-- A bar that is not expected stands in the pattern too. -/
theorem stays_nextBranch (hinside : Stays kind inside) (allowEmpty firstEmpty : Bool) :
    Stays kind (nextBranch inside allowEmpty firstEmpty) := by
  refine keeps_peek.bind fun bar hbar => Keeps.ite (fun hoperator => ?_) fun _ => keeps_pure trivial
  refine keeps_advance.bind fun _ _ => (stays_branch hinside).bind fun found _ => ?_
  refine keeps_check (fun c hc => hbar c ?_) (keeps_pure trivial)
  have hlexeme : bar.lexeme = .operator '|' := by simpa [Token.isOperator] using hoperator
  rw [Token.symbol?, hlexeme]
  exact congrArg some (Problem.unexpected.inj hc)

theorem stays_alternation (hinside : Stays kind inside) (allowEmpty : Bool) :
    Stays kind (alternation inside allowEmpty) := by
  refine (stays_branch hinside).bind fun first _ => ?_
  refine (stays_many (stays_nextBranch hinside allowEmpty first.2)).bind fun others _ => ?_
  split <;> exact keeps_pure trivial

theorem stays_insideGroup (room : Nat) : Stays kind (insideGroup room) := by
  induction room with
  -- Without room the complaint is about the depth, and quotes nothing.
  | zero => exact fun cursor hcursor => fun _ hc => nomatch hc
  | succ room ih => exact fun cursor hcursor => stays_alternation ih true cursor hcursor

theorem stays_wholePattern : Stays kind wholePattern := by
  have halternation : Stays kind Rule.alternation.reader :=
    fun cursor hcursor => stays_alternation (stays_insideGroup _) false cursor hcursor
  refine halternation.bind fun node _ => keeps_peek.bind fun token htoken => ?_
  split
  next => exact keeps_pure trivial
  next c hsymbol =>
    refine keeps_reject fun d hd => htoken d ?_
    rw [hsymbol]
    exact congrArg some (Problem.unexpected.inj hd)

/-- Reading a pattern begins before its characters. -/
theorem drawn_start {pattern : List Char} {depth : Int} (h : ∀ c ∈ pattern, kind c) :
    (∀ cursor, Cursor.start pattern depth = .ok cursor → cursor.Drawn kind) ∧
      ∀ error, Cursor.start pattern depth = .error error → error.Drawn kind := by
  rcases yields_readToken 0 h with ⟨⟨htoken, herror⟩, hrest⟩
  unfold Cursor.start
  dsimp only
  -- The cursor is the first token with what is left behind it.
  cases houtcome : (readToken 0 pattern).outcome with
  | ok token =>
    refine ⟨fun cursor hcursor => ?_, fun error hfault => nomatch hfault⟩
    obtain rfl := Except.ok.inj hcursor
    exact ⟨htoken token houtcome, hrest⟩
  | error reason =>
    refine ⟨fun cursor hcursor => (nomatch hcursor), fun error hfault => ?_⟩
    obtain rfl := Except.error.inj hfault
    exact herror reason houtcome

/-- A character that is not expected is one of the pattern. -/
theorem drawn_of_parse {pattern : List Char} {error : Error} (hpattern : ∀ c ∈ pattern, kind c)
    (h : parse pattern = .error error) : error.Drawn kind := by
  -- Either the first token cannot be read, or reading the whole pattern fails.
  rcases bind_eq_error_iff.1 h with h | ⟨cursor, hcursor, h⟩
  · exact (drawn_start hpattern).2 error h
  · have hwhole := stays_wholePattern cursor ((drawn_start hpattern).1 cursor hcursor)
    cases hreader : wholePattern cursor with
    | ok node after =>
      rw [hreader] at h
      exact nomatch h
    | error reason after =>
      rw [hreader] at h hwhole
      exact Except.error.inj h ▸ hwhole

end Rules

end Pattern

end FiniteState
