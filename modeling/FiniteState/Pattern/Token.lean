import FiniteState.Automaton.Edge
import FiniteState.Text.Quoted

/-!
# Tokens of Patterns

A pattern is read as a sequence of tokens. The nine operators are `+`, `*`, `?`, `.`, `|`, `(`, `)`,
`[` and `]`; a backslash makes the character after it stand for itself; any other character stands
for itself anyway. A token that follows the last character marks the end.

Reading fails at a backslash with nothing after it and at a character that is not a symbol. What has
been consumed by then stays consumed.

## Main definitions

* `Pattern.Token`: A token and the position of its first character.
* `Pattern.Error`: What is wrong with a pattern, and where.
* `Pattern.readToken`: The first token of a text.
* `Pattern.Scan`, `Pattern.scan`: All tokens of a pattern up to its end or the first failure.
-/

namespace FiniteState

namespace Pattern

/-- What is wrong with a pattern. -/
inductive Problem
  /-- A backslash has nothing after it. -/
  | invalidEscape
  /-- A character is not a symbol. -/
  | unsupported (c : Char)
  /-- An operator stands where it cannot. -/
  | unexpected (operator : Char)
  /-- Groups and repetitions lie too deep. -/
  | tooDeep
  /-- A group is not closed. -/
  | unmatchedParenthesis
  /-- A character class is not closed. -/
  | unmatchedBracket
  /-- A character class has a hyphen out of place or a range with its ends exchanged. -/
  | invalidSet
deriving DecidableEq

/-- The wording of a problem. -/
def Problem.message : Problem → String
  | invalidEscape => "invalid escape sequence"
  | unsupported c => "unsupported character " ++ Text.quoted (String.singleton c)
  | unexpected operator => "unexpected character '" ++ String.singleton operator ++ "'"
  | tooDeep => "pattern nested too deeply"
  | unmatchedParenthesis => "unmatched parentheses"
  | unmatchedBracket => "unmatched brackets"
  | invalidSet => "invalid character set"

/-- What is wrong with a pattern, and the position of the token at fault. -/
structure Error where
  problem : Problem
  position : Nat
deriving DecidableEq

/-- The wording of an error, its position included. -/
def Error.message (error : Error) : String :=
  let position := error.position
  error.problem.message ++ s!" at position {position}"

/-- What a token is. -/
inductive Lexeme
  /-- An operator without a backslash. -/
  | operator (symbol : Char)
  /-- A character that is no operator. -/
  | plain (symbol : Char)
  /-- Any character after a backslash. -/
  | escaped (symbol : Char)
  /-- The end of the pattern. -/
  | finish
deriving DecidableEq

/-- A token and the position of its first character. -/
structure Token where
  lexeme : Lexeme
  position : Nat
deriving DecidableEq

/-- Whether a character without a backslash is an operator. -/
def isOperator (c : Char) : Bool :=
  ['+', '*', '?', '.', '|', '(', ')', '[', ']'].contains c

namespace Token

/-- The character that a token stands for, if it is not the end. -/
def symbol? (token : Token) : Option Char :=
  match token.lexeme with
  | .operator c => some c
  | .plain c => some c
  | .escaped c => some c
  | .finish => none

/-- Whether a token marks the end of the pattern. -/
def atEnd (token : Token) : Bool :=
  token.lexeme = .finish

/-- Whether a token is a certain operator. -/
def isOperator (token : Token) (symbol : Char) : Bool :=
  token.lexeme = .operator symbol

/-- Whether a token is a hyphen without a backslash. -/
def isHyphen (token : Token) : Bool :=
  token.lexeme = .plain '-'

end Token

/-- The outcome of reading one token, and the text after what has been consumed with the position
    of its first character. -/
structure Reading where
  outcome : Except Error Token
  pos : Nat
  rest : List Char

/-- The lexeme of a character without a backslash. -/
def bareLexeme (c : Char) : Lexeme :=
  if isOperator c then .operator c else .plain c

/-- A token whose character must be a symbol. -/
def supported (lexeme : Lexeme) (c : Char) (position : Nat) : Except Error Token :=
  if isSymbol c then .ok ⟨lexeme, position⟩ else .error ⟨.unsupported c, position⟩

/-- Read the first token of a text, which begins at a position of the pattern. -/
def readToken (pos : Nat) : List Char → Reading
  | [] => ⟨.ok ⟨.finish, pos⟩, pos, []⟩
  | ['\\'] => ⟨.error ⟨.invalidEscape, pos⟩, pos + 1, []⟩
  | '\\' :: c :: rest => ⟨supported (.escaped c) c pos, pos + 2, rest⟩
  | c :: rest => ⟨supported (bareLexeme c) c pos, pos + 1, rest⟩

/-- The tokens read from a pattern, and the error that stopped the reading before its end. -/
structure Scan where
  tokens : List Token
  error? : Option Error

/-- Read tokens from a text up to its end or the first failure, in at most the given number of
    rounds. -/
def scanFrom : Nat → Nat → List Char → Scan
  | 0, _, _ => ⟨[], none⟩
  | rounds + 1, pos, text =>
    let reading := readToken pos text
    match reading.outcome with
    | .error error => ⟨[], some error⟩
    | .ok token =>
      if token.atEnd then ⟨[token], none⟩
      else
        let after := scanFrom rounds reading.pos reading.rest
        { after with tokens := token :: after.tokens }

/-- All tokens of a pattern up to its end or the first failure. -/
def scan (pattern : List Char) : Scan :=
  scanFrom (pattern.length + 1) 0 pattern

/-- The tokens that a reader with one token of lookahead gets to hand on. The token before a failure
    is not among them, since the failure comes when it is about to be replaced. -/
def Scan.handedOn (s : Scan) : List Token :=
  match s.error? with
  | none => s.tokens
  | some _ => s.tokens.dropLast

end Pattern

end FiniteState
