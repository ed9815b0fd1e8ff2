import FiniteState.Text.Printable

/-!
# Quoted Text

Text as it is quoted in messages. Single quotes enclose it, unless it holds a single quote and no
double one. The backslash and the quote in use are escaped, line feed, carriage return and tab have
escapes of their own, and any other character that is not printable is written as its code point
with two, four or eight hexadecimal digits.

## Main definitions

* `quoted`: The quoted form of a text.
-/

namespace FiniteState

namespace Text

/-- The last `count` hexadecimal digits of a number, in lower case. -/
def hexDigits (count : Nat) (n : Nat) : List Char :=
  (List.range count).reverse.map fun place => Nat.digitChar (n >>> (4 * place) % 16)

/-- The form of one character between quotes. -/
def escaped (quote c : Char) : List Char :=
  if c = quote ∨ c = '\\' then ['\\', c]
  else if c = '\n' then ['\\', 'n']
  else if c = '\r' then ['\\', 'r']
  else if c = '\t' then ['\\', 't']
  else if isPrintable c then [c]
  else if c.toNat < 0x100 then '\\' :: 'x' :: hexDigits 2 c.toNat
  else if c.toNat < 0x10000 then '\\' :: 'u' :: hexDigits 4 c.toNat
  else '\\' :: 'U' :: hexDigits 8 c.toNat

/-- The quotes that enclose a text. -/
def quoteFor (text : List Char) : Char :=
  if '\'' ∈ text ∧ '"' ∉ text then '"' else '\''

/-- The quoted form of a text. -/
def quoted (text : String) : String :=
  let quote := quoteFor text.toList
  String.ofList (quote :: (text.toList.flatMap (escaped quote) ++ [quote]))

end Text

end FiniteState
