import FiniteState.Pattern.Token
import FiniteState.Regex.Basic

/-!
# Reading Patterns

Patterns are read by recursive descent with one token of lookahead:

* an alternation is expressions with bars between them,
* an expression is any number of suffixed terms,
* a suffixed term is a term with any number of quantifiers `+`, `*` and `?`,
* a term is the wildcard, a group in parentheses, a character class in brackets, or a character.

Outside of groups every branch of an alternation has to consume a token. Groups lie inside one
another at most `maxNesting` deep, and a quantifier may not raise its tree above what is left of
that limit.

The rules are functions on a cursor that return the cursor they end at also when they fail. A rule
takes the reader of what stands inside parentheses as an argument, so that only `insideGroup`, which
supplies it, is recursive; its argument is the number of groups that may still be opened. The
repetitions within a rule are bounded by the number of characters that are left, since every round
consumes a token.

## Main definitions

* `Pattern.Cursor`: A place in a pattern, with the token that comes next and the depth of groups.
* `Pattern.Reader`: A function on cursors that may fail.
* `Pattern.term`, `Pattern.suffix`, `Pattern.expression`, `Pattern.alternation`: The rules.
* `Pattern.insideGroup`: What stands inside parentheses.
* `Pattern.Rule`, `Pattern.Rule.reader`: Each rule by itself.
* `Pattern.parse`: The tree of a pattern.
-/

namespace FiniteState

namespace Pattern

/-- The greatest depth of groups, and of what quantifiers may build on them. -/
def maxNesting : Int := 100

/-- A place in a pattern: the next token, the text after it with the position where that begins, and
    the number of groups that are open. -/
structure Cursor where
  token : Token
  pos : Nat
  rest : List Char
  depth : Int

/-- A reader of patterns. The cursor it ends at is known also when it fails. -/
abbrev Reader := EStateM Error Cursor

/-- The cursor at the first token of a pattern. -/
def Cursor.start (pattern : List Char) (depth : Int) : Except Error Cursor :=
  let reading := readToken 0 pattern
  reading.outcome.map fun token => ⟨token, reading.pos, reading.rest, depth⟩

/-- Consume the next token. If the one after it cannot be read, the token stays the next one, while
    the characters of the failed reading are gone. -/
def advance : Reader Token := fun cursor =>
  let reading := readToken cursor.pos cursor.rest
  let moved := { cursor with pos := reading.pos, rest := reading.rest }
  match reading.outcome with
  | .ok token => .ok cursor.token { moved with token := token }
  | .error error => .error error moved

/-- The next token. -/
def peek : Reader Token := fun cursor =>
  .ok cursor.token cursor

/-- Fail with a problem at a token. -/
def reject {α : Type} (problem : Problem) (token : Token) : Reader α :=
  throw ⟨problem, token.position⟩

/-- Consume the next token if it is a certain operator. -/
def accept (operator : Char) : Reader Bool := do
  if (← peek).isOperator operator then
    let _ ← advance
    return true
  return false

/-- Read items until there is no other, at most the given number of them. -/
def upTo {α : Type} (item : Reader (Option α)) : Nat → Reader (List α)
  | 0 => return []
  | count + 1 => do
    match ← item with
    | none => return []
    | some first =>
      let others ← upTo item count
      return first :: others

/-- Read items until there is no other. Each of them consumes a token, so there are no more items
    than tokens, and one round more finds that there is no other. -/
def many {α : Type} (item : Reader (Option α)) : Reader (List α) := fun cursor =>
  upTo item (cursor.rest.length + 2) cursor

/-- Read one group deeper. The depth is restored when reading ends, also when it fails. -/
def deeper {α : Type} (body : Reader α) : Reader α := fun cursor =>
  match body { cursor with depth := cursor.depth + 1 } with
  | .ok value after => .ok value { after with depth := after.depth - 1 }
  | .error error after => .error error { after with depth := after.depth - 1 }

/-- The upper end of a range of a character class, if a hyphen comes next. -/
def upperEnd (opening : Token) : Reader (Option Char) := do
  if (← peek).isHyphen then
    let _ ← advance
    let upper ← peek
    match upper.symbol? with
    | none => reject .unmatchedBracket opening
    | some c =>
      if upper.isOperator ']' then
        reject .invalidSet upper
      let _ ← advance
      return some c
  return none

/-- One range of a character class, unless the class ends. Operators lose their meaning here. -/
def range (opening : Token) : Reader (Option (Char × Char)) := do
  let token ← peek
  if token.isOperator ']' then
    return none
  match token.symbol? with
  | none => reject .unmatchedBracket opening
  | some low =>
    if token.isHyphen then
      reject .invalidSet token
    let _ ← advance
    let high := (← upperEnd opening).getD low
    if high < low then
      reject .invalidSet token
    return some (low, high)

/-- A character class after its opening bracket. -/
def characterClass (opening : Token) : Reader Regex := do
  let ranges ← many (range opening)
  let _ ← advance
  return .characterSet ranges

/-- A group after its opening parenthesis. -/
def group (inside : Reader Regex) (opening : Token) : Reader Regex :=
  deeper do
    if (← get).depth > maxNesting then
      reject .tooDeep opening
    let node ← inside
    if ← accept ')' then
      return node
    reject .unmatchedParenthesis opening

/-- A term. Where the pattern has ended, it is missing. -/
def term (inside : Reader Regex) : Reader Regex := do
  let token ← peek
  match token.lexeme with
  | .operator '.' => do
    let _ ← advance
    return .wildcard
  | .operator '(' => do
    let _ ← advance
    group inside token
  | .operator '[' => do
    let _ ← advance
    characterClass token
  | .operator operator => reject (.unexpected operator) token
  | .plain c | .escaped c => do
    let _ ← advance
    return .character [c]
  | .finish => return .missing

/-- What a quantifier makes of a tree, if the token is one. -/
def quantified (token : Token) (node : Regex) : Option Regex :=
  match token.lexeme with
  | .operator '+' => some (.iteration node)
  | .operator '*' => some (.optional (.iteration node))
  | .operator '?' => some (.optional node)
  | _ => none

/-- The quantifiers after a tree, at most the given number of them. -/
def quantifiers : Nat → Regex → Reader Regex
  | 0, node => return node
  | count + 1, node => do
    let token ← peek
    match quantified token node with
    | none => return node
    | some outer =>
      let _ ← advance
      if (← get).depth + outer.height > maxNesting then
        reject .tooDeep token
      quantifiers count outer

/-- A term with its quantifiers. -/
def suffix (inside : Reader Regex) : Reader Regex := do
  let node ← term inside
  quantifiers ((← get).rest.length + 1) node

/-- The next suffixed term of an expression, unless the expression ends. -/
def nextSuffix (inside : Reader Regex) : Reader (Option Regex) := do
  let token ← peek
  if token.atEnd || token.isOperator '|' || token.isOperator ')' then
    return none
  some <$> suffix inside

/-- An expression. A single term stands for itself. -/
def expression (inside : Reader Regex) : Reader Regex := do
  match ← many (nextSuffix inside) with
  | [node] => return node
  | nodes => return .concatenation nodes

/-- An expression, and whether it consumed no token. -/
def branch (inside : Reader Regex) : Reader (Regex × Bool) := do
  let start := (← peek).position
  let node ← expression inside
  return (node, (← peek).position == start)

/-- The next branch of an alternation, unless there is no further bar. Where empty branches are not
    allowed, `firstEmpty` says whether the first branch is one. -/
def nextBranch (inside : Reader Regex) (allowEmpty firstEmpty : Bool) : Reader (Option Regex) := do
  let bar ← peek
  if bar.isOperator '|' then
    let _ ← advance
    let (node, empty) ← branch inside
    if !allowEmpty && (firstEmpty || empty) then
      reject (.unexpected '|') bar
    return some node
  return none

/-- An alternation. A single branch stands for itself. -/
def alternation (inside : Reader Regex) (allowEmpty : Bool) : Reader Regex := do
  let (first, firstEmpty) ← branch inside
  match ← many (nextBranch inside allowEmpty firstEmpty) with
  | [] => return first
  | others => return .alternation (first :: others)

/-- What stands inside parentheses, where so many groups may be open at most, this one included. -/
def insideGroup : Nat → Reader Regex
  | 0, cursor => reject .tooDeep cursor.token cursor
  | room + 1, cursor => alternation (insideGroup room) true cursor

/-- The rules of the grammar. A group differs from an alternation in that its branches may be
    empty. -/
inductive Rule
  | term
  | suffix
  | expression
  | alternation
  | group
deriving DecidableEq

/-- The reader of a rule, given the reader of what stands inside parentheses. -/
def Rule.readerWith (inside : Reader Regex) : Rule → Reader Regex
  | term => Pattern.term inside
  | suffix => Pattern.suffix inside
  | expression => Pattern.expression inside
  | alternation => Pattern.alternation inside false
  | group => Pattern.alternation inside true

/-- The reader of a rule at any depth of groups. -/
def Rule.reader (rule : Rule) : Reader Regex := fun cursor =>
  rule.readerWith (insideGroup (maxNesting - cursor.depth).toNat) cursor

/-- A whole pattern: an alternation with nothing after it. -/
def wholePattern : Reader Regex := do
  let node ← Rule.alternation.reader
  let token ← peek
  match token.symbol? with
  | none => return node
  | some c => reject (.unexpected c) token

/-- The tree of a pattern. -/
def parse (pattern : List Char) : Except Error Regex := do
  let cursor ← Cursor.start pattern 0
  match wholePattern cursor with
  | .ok node _ => .ok node
  | .error error _ => .error error

end Pattern

end FiniteState
