/-!
# UTF-8

Decoding of bytes as UTF-8. The first byte of a character says how many continuation bytes follow it
and, for some, a narrower range for the first of those, which keeps out overlong forms, surrogates
and numbers that are no code points.

A failure covers the bytes that could have begun a character: those up to the first that does not
fit, or up to the end of the data.

## Main definitions

* `Utf8.Fault`: What is wrong with some bytes, and where.
* `Utf8.decode`: The characters of some bytes.
* `unifyLineEnds`: Text with every line end as a single line feed.
-/

namespace FiniteState

namespace Utf8

/-- What is wrong with bytes. -/
inductive Problem
  /-- A byte cannot begin a character. -/
  | start
  /-- A byte does not continue the character begun before it. -/
  | continuation
  /-- The data ends within a character. -/
  | ended
deriving DecidableEq

/-- The wording of a problem. -/
def Problem.message : Problem → String
  | start => "invalid start byte"
  | continuation => "invalid continuation byte"
  | ended => "unexpected end of data"

/-- What is wrong with bytes: the problem, the first byte concerned with its position, and the
    number of bytes concerned. -/
structure Fault where
  problem : Problem
  byte : Nat
  position : Nat
  length : Nat
deriving DecidableEq

/-- Two hexadecimal digits. -/
def hexByte (byte : Nat) : String :=
  String.ofList [Nat.digitChar (byte / 16), Nat.digitChar (byte % 16)]

/-- The wording of a fault. -/
def Fault.message (fault : Fault) : String :=
  let position := fault.position
  let last := fault.position + fault.length - 1
  let place :=
    if fault.length = 1 then "byte 0x" ++ hexByte fault.byte ++ s!" in position {position}"
    else s!"bytes in position {position}-{last}"
  "'utf-8' codec can't decode " ++ place ++ ": " ++ fault.problem.message

/-- The form of the character that a byte begins: the number of continuation bytes, the least and
    the greatest value of the first of them, and the bits that the byte itself contributes. -/
structure Form where
  count : Nat
  least : Nat
  greatest : Nat
  bits : Nat

/-- The form of the character that a byte begins, if it can begin one. -/
def form? (byte : Nat) : Option Form :=
  if byte < 0x80 then some ⟨0, 0x80, 0xbf, byte⟩
  else if byte < 0xc2 then none
  else if byte < 0xe0 then some ⟨1, 0x80, 0xbf, byte - 0xc0⟩
  else if byte < 0xf0 then
    some ⟨2, if byte = 0xe0 then 0xa0 else 0x80, if byte = 0xed then 0x9f else 0xbf, byte - 0xe0⟩
  else if byte < 0xf5 then
    some ⟨3, if byte = 0xf0 then 0x90 else 0x80, if byte = 0xf4 then 0x8f else 0xbf, byte - 0xf0⟩
  else none

/-- The code point made of some bits and the continuation bytes after them. A failure holds the
    problem and the number of bytes that fit. The bounds are those for the next byte. -/
def continued (bits least greatest : Nat) : Nat → Nat → List Nat → Except (Problem × Nat) Nat
  | 0, _, _ => .ok bits
  | _ + 1, fitting, [] => .error (.ended, fitting)
  | count + 1, fitting, byte :: rest =>
    if least ≤ byte ∧ byte ≤ greatest then
      continued (64 * bits + (byte - 0x80)) 0x80 0xbf count (fitting + 1) rest
    else .error (.continuation, fitting)

/-- The characters of the bytes from a position on, where the first `skip` bytes continue the
    character before. -/
def decodeFrom (position : Nat) : Nat → List Nat → Except Fault (List Char)
  | _, [] => .ok []
  | skip + 1, _ :: rest => decodeFrom (position + 1) skip rest
  | 0, byte :: rest =>
    match form? byte with
    | none => .error ⟨.start, byte, position, 1⟩
    | some form =>
      match continued form.bits form.least form.greatest form.count 1 rest with
      | .error (problem, fitting) => .error ⟨problem, byte, position, fitting⟩
      | .ok code => (decodeFrom (position + 1) form.count rest).map (Char.ofNat code :: ·)

/-- The characters of some bytes. -/
def decode (bytes : List Nat) : Except Fault (List Char) :=
  decodeFrom 0 0 bytes

end Utf8

namespace Text

/-- Text with a line feed in place of every carriage return, or of one and the line feed after
    it. -/
def unifyLineEnds : List Char → List Char
  | [] => []
  | '\r' :: '\n' :: rest => '\n' :: unifyLineEnds rest
  | '\r' :: rest => '\n' :: unifyLineEnds rest
  | c :: rest => c :: unifyLineEnds rest

end Text

end FiniteState
