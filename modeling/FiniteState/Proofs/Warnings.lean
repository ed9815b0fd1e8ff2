import FiniteState.Description.Reader
import FiniteState.Pattern.Matcher
import FiniteState.Proofs.Complaints

/-!
# Warnings on One Line

A message may quote what it complains about: a label, a line, a character of a pattern. None of this
can break the line that the message is on. What is quoted between quotes has its line feeds escaped,
and what is quoted as it stands comes from a single line of the content.

## Main definitions

* `Text.OneLine`: A text has no line feed in it.
* `Description.Fault.OneLine`: What a fault quotes as it stands has no line feed in it.

## Theorems

* `Text.oneLine_quoted`: Quoting escapes line feeds.
* `Description.oneLine_of_read`: The faults of a content quote from one line.
* `Description.not_mem_of_patternOf`: The pattern that a content declares is on one line.
* `Pattern.oneLine_of_ofPattern`: The fault of a pattern on one line is reported on one line.
-/

namespace FiniteState

namespace Text

/-- A text has no line feed in it. -/
def OneLine (text : String) : Prop :=
  '\n' ∉ text.toList

theorem oneLine_ofList {text : List Char} : OneLine (String.ofList text) ↔ '\n' ∉ text := by
  rw [OneLine, String.toList_ofList]

theorem toString_text (text : String) : toString text = text :=
  rfl

theorem not_mem_toDigits (n : Nat) : '\n' ∉ Nat.toDigits 10 n := fun hmem =>
  absurd (Nat.isDigit_of_mem_toDigits (by decide) (by decide) hmem) (by decide)

theorem not_mem_repr (n : Int) : '\n' ∉ n.repr.toList := by
  cases n with
  | ofNat n => simp [Int.repr, not_mem_toDigits]
  | negSucc n => simp [Int.repr, not_mem_toDigits]

theorem not_mem_hexDigits (count n : Nat) : '\n' ∉ hexDigits count n := by
  intro hmem
  rcases List.mem_map.1 hmem with ⟨place, -, hdigit⟩
  have hall : ∀ digit < 16, Nat.digitChar digit ≠ '\n' := by decide
  exact hall _ (Nat.mod_lt _ (by decide)) hdigit

theorem not_mem_escaped {quote : Char} (hquote : quote ≠ '\n') (c : Char) :
    '\n' ∉ escaped quote c := by
  unfold escaped
  split
  next h =>
    rcases h with rfl | rfl
    · simp [hquote.symm]
    · decide
  split
  next => decide
  next hfeed =>
    split
    next => decide
    split
    next => decide
    split
    -- What is kept as it stands is no line feed, since that has an escape of its own.
    next => simpa [eq_comm] using hfeed
    split
    next => simp [not_mem_hexDigits]
    split
    next => simp [not_mem_hexDigits]
    next => simp [not_mem_hexDigits]

/-- Quoting escapes line feeds. -/
theorem oneLine_quoted (text : String) : OneLine (quoted text) := by
  have hquote : quoteFor text.toList ≠ '\n' := by
    unfold quoteFor
    split <;> decide
  rw [quoted, oneLine_ofList, List.mem_cons, List.mem_append, List.mem_flatMap]
  intro hmem
  rcases hmem with hfirst | ⟨c, -, hc⟩ | hlast
  · exact hquote hfirst.symm
  · exact not_mem_escaped hquote c hc
  · exact hquote (List.mem_singleton.1 hlast).symm

theorem IntegerFault.oneLine_message (text : List Char) (fault : IntegerFault) :
    OneLine (fault.message text) := by
  have hquoted := oneLine_quoted (String.ofList text)
  unfold OneLine at hquoted ⊢
  unfold message
  cases fault with
  | notLiteral =>
    simp only [String.toList_append, List.mem_append, not_or, String.toList_ofList]
    exact ⟨by simp, fun hmem => hquoted (List.mem_of_mem_take hmem)⟩
  | tooManyDigits count limit => simp [toString_text, not_mem_toDigits]

end Text

theorem Automaton.Fault.oneLine_message (fault : Automaton.Fault) : Text.OneLine fault.message := by
  unfold Text.OneLine message
  cases fault with
  | negativeCount count => simp [Text.toString_text, Text.not_mem_repr]
  | missingState state size =>
    simp [Text.toString_text, Text.not_mem_repr, Text.not_mem_toDigits]
  | invalidSymbol label =>
    have hquoted : '\n' ∉ (Text.quoted label).toList := Text.oneLine_quoted label
    simp [hquoted]
  | rowLength | slotCount | notAtomic => simp [Text.toString_text, Text.not_mem_toDigits]
  | missingCharacter => simp

namespace Description

/-- What a fault quotes as it stands has no line feed in it. -/
def Fault.OneLine : Fault → Prop
  | invalidLabel text => '\n' ∉ text
  | invalidTransition line => '\n' ∉ line
  | unreadableLine line => '\n' ∉ line
  | _ => True

theorem Fault.OneLine.message {fault : Fault} (h : fault.OneLine) :
    Text.OneLine fault.message := by
  cases fault with
  | integer text fault => exact fault.oneLine_message text
  | automaton fault => exact fault.oneLine_message
  | invalidLabel | invalidTransition | unreadableLine | noPattern =>
    unfold Fault.OneLine at h
    unfold Text.OneLine Fault.message
    simp [h]

variable {limit : Nat} {line : List Char} {fault : Fault}

theorem oneLine_of_nameValue {name : List Char} (h : nameValue limit name = .error fault) :
    fault.OneLine := by
  rcases mapError_eq_error_iff.1 h with ⟨reason, -, rfl⟩
  trivial

theorem oneLine_of_readStates {names : List (List Char)}
    (h : readStates limit names = .error fault) : fault.OneLine := by
  unfold readStates at h
  split at h
  next =>
    split at h
    next => exact oneLine_of_nameValue (map_eq_error_iff.1 h)
    next => exact nomatch h
  next => exact nomatch h

theorem oneLine_of_readLabel {text : List Char} (htext : '\n' ∉ text)
    (h : readLabel text = .error fault) : fault.OneLine := by
  unfold readLabel at h
  split at h
  next => exact nomatch h
  next =>
    split at h
    next => exact nomatch h
    next =>
      obtain rfl := Except.error.inj h
      exact htext

/-- The pieces of a line are on one line. -/
theorem oneLine_of_readEdge (hline : '\n' ∉ line) (h : readEdge line = .error fault) :
    fault.OneLine := by
  unfold readEdge at h
  split at h
  next =>
    split at h
    next source label target hpieces =>
      have hmem : label ∈ (Text.cutAt ['-', '>'] line).map Text.trim := by simp [hpieces]
      rcases List.mem_map.1 hmem with ⟨piece, hpiece, rfl⟩
      -- A label that is refused is quoted, and it is a piece of the line.
      have hlabel : '\n' ∉ Text.trim piece :=
        fun hfeed => hline (Text.mem_of_mem_cutAt hpiece (Text.mem_of_mem_trim hfeed))
      rcases bind_eq_error_iff.1 h with h | ⟨_, -, h⟩
      · exact oneLine_of_readLabel hlabel h
      · exact nomatch h
    next =>
      obtain rfl := Except.error.inj h
      exact hline
  next =>
    split at h
    next source label target hwords =>
      have hlabel : '\n' ∉ label :=
        fun hfeed => hline (Text.mem_of_mem_words (by simp [hwords]) hfeed)
      rcases bind_eq_error_iff.1 h with h | ⟨_, -, h⟩
      · exact oneLine_of_readLabel hlabel h
      · exact nomatch h
    next =>
      obtain rfl := Except.error.inj h
      exact hline

theorem oneLine_of_readStatement (hline : '\n' ∉ line)
    (h : readStatement limit line = .error fault) : fault.OneLine := by
  unfold readStatement at h
  split at h
  next =>
    -- Of the lines with keywords only the one of states can fail.
    rcases bind_eq_error_iff.1 h with h | ⟨_, -, h⟩
    · exact oneLine_of_readStates h
    · exact nomatch h
  next =>
    split at h
    next => exact nomatch h
    next =>
      split at h
      next => exact nomatch h
      next => exact oneLine_of_readEdge hline h

theorem oneLine_of_sortNames {names : List (List Char)}
    (h : sortNames limit names = .error fault) : fault.OneLine := by
  rcases bind_eq_error_iff.1 h with h | ⟨_, -, h⟩
  · rcases exists_of_mapM_eq_error h with ⟨name, -, h⟩
    rcases bind_eq_error_iff.1 h with h | ⟨_, -, h⟩
    · unfold nameKey at h
      split at h
      next => exact oneLine_of_nameValue (map_eq_error_iff.1 h)
      next => exact nomatch h
    · exact nomatch h
  · exact nomatch h

theorem not_mem_of_mem_significantLines {content : List Char}
    (hline : line ∈ significantLines content) : '\n' ∉ line := by
  rcases mem_significantLines.1 hline with ⟨raw, hraw, rfl, -⟩
  exact fun hfeed => Text.not_mem_of_mem_lines hraw (Text.mem_of_mem_trim hfeed)

/-- The faults of a content quote from one line. -/
theorem oneLine_of_read {content : List Char} (h : readWithin limit content = .error fault) :
    fault.OneLine := by
  rcases bind_eq_error_iff.1 h with h | ⟨statements, -, h⟩
  · rcases exists_of_mapM_eq_error h with ⟨line, hline, h⟩
    exact oneLine_of_readStatement (not_mem_of_mem_significantLines hline) h
  · rcases bind_eq_error_iff.1 h with h | ⟨names, -, h⟩
    · exact oneLine_of_sortNames h
    · rcases bind_eq_error_iff.1 h with h | ⟨_, -, h⟩
      · rcases mapError_eq_error_iff.1 h with ⟨reason, -, rfl⟩
        trivial
      · exact nomatch h

/-- The pattern that a content declares is on one line. -/
theorem not_mem_of_patternOf {content pattern : List Char} (h : patternOf content = .ok pattern) :
    '\n' ∉ pattern := by
  unfold patternOf at h
  split at h
  next found hfound =>
    obtain rfl := Except.ok.inj h
    rcases List.exists_of_findSome?_eq_some hfound with ⟨line, hline, hdeclared⟩
    -- The pattern is a part of a line, and lines hold no line feeds.
    have hafter : ∀ keyword, afterKeyword? keyword line = some found → '\n' ∉ found := by
      intro keyword hkeyword
      unfold afterKeyword? at hkeyword
      split at hkeyword
      next =>
        obtain rfl := Option.some.inj hkeyword
        exact fun hfeed => not_mem_of_mem_significantLines hline
          (List.mem_of_mem_drop (Text.mem_of_mem_trim hfeed))
      next => exact nomatch hkeyword
    rcases Option.or_eq_some_iff.1 hdeclared with h | ⟨-, h⟩
    · exact hafter _ h
    · exact hafter _ h
  next => exact nomatch h

end Description

namespace Pattern

/-- An error that quotes no line feed as it stands is reported on one line. -/
theorem Error.oneLine_message {error : Error} (h : error.Drawn (· ≠ '\n')) :
    Text.OneLine error.message := by
  obtain ⟨problem, position⟩ := error
  have hproblem : '\n' ∉ problem.message.toList := by
    cases problem with
    | unsupported c =>
      have hquoted : '\n' ∉ (Text.quoted (String.singleton c)).toList := Text.oneLine_quoted _
      unfold Problem.message
      simp [hquoted]
    | unexpected operator =>
      have hoperator : operator ≠ '\n' := h operator rfl
      unfold Problem.message
      simp [hoperator.symm]
    -- These quote nothing.
    | invalidEscape | tooDeep | unmatchedParenthesis | unmatchedBracket | invalidSet =>
      unfold Problem.message
      simp
  unfold Text.OneLine message
  simp [hproblem, Text.toString_text, Text.not_mem_toDigits]

/-- The fault of a pattern on one line is reported on one line. -/
theorem oneLine_of_ofPattern {pattern : List Char} {fault : Fault} (hpattern : '\n' ∉ pattern)
    (h : Matcher.ofPattern pattern = .error fault) : Text.OneLine fault.message := by
  have hkind : ∀ c ∈ pattern, c ≠ '\n' := fun c hc heq => hpattern (heq ▸ hc)
  rcases bind_eq_error_iff.1 h with h | ⟨_, -, h⟩
  · rcases bind_eq_error_iff.1 h with h | ⟨_, -, h⟩
    · rcases bind_eq_error_iff.1 h with h | ⟨node, -, h⟩
      · rcases mapError_eq_error_iff.1 h with ⟨error, herror, rfl⟩
        exact Error.oneLine_message (drawn_of_parse hkind herror)
      · rcases mapError_eq_error_iff.1 h with ⟨reason, -, rfl⟩
        exact reason.oneLine_message
    · exact nomatch h
  · exact nomatch h

end Pattern

end FiniteState
