import FiniteState.Description.Fault

/-!
# Names of States

The order in which the states of a description are numbered. Names that consist of digits come
first, in the order of their values, so that `10` follows `9`; all other names come after them in
the order of their code points. Names of digits have values only up to a limit on their number.

## Main definitions

* `NameKey`: What the order of a name depends on.
* `nameValue`: The value of a name of digits.
* `nameKey`: The key of a name.
* `sortNames`: Names in their order. Names with the same key stay in the order given.
-/

namespace FiniteState

namespace Description

/-- What the order of a name depends on: its value if it is a number, or else its text. -/
inductive NameKey
  | number (value : Nat)
  | word (text : List Char)
deriving DecidableEq

/-- Numbers come before words. -/
def NameKey.compare : NameKey → NameKey → Ordering
  | number m, number n => Ord.compare m n
  | number _, word _ => .lt
  | word _, number _ => .gt
  | word v, word w => Ord.compare v w

/-- The value of a name of digits. There is none if not all of them are decimal, or if the decimal
    digits at the beginning are more than the limit. -/
def nameValue (limit : Nat) (name : List Char) : Except Fault Nat :=
  (Text.readNatural limit name).mapError (.integer name)

/-- The key of a name. A name of digits without a value has none. -/
def nameKey (limit : Nat) (name : List Char) : Except Fault NameKey :=
  if Text.isDigits name then (nameValue limit name).map .number else .ok (.word name)

/-- Names in their order. Names with the same key stay in the order given. -/
def sortNames (limit : Nat) (names : List (List Char)) : Except Fault (List (List Char)) := do
  let keyed ← names.mapM fun name => do return (← nameKey limit name, name)
  return (keyed.mergeSort fun a b => (a.1.compare b.1).isLE).map Prod.snd

end Description

end FiniteState
