/-!
# Regular Expressions

The tree of a regular expression. Leaves read one character; inner nodes put their children in a
row or side by side, repeat a child, or make it optional.

A tree may be of a form that no pattern is read as: a character leaf with several symbols or none,
a range with its ends exchanged, a row or an alternation of fewer than two children, or a leaf in
place of a term that is missing.

## Main definitions

* `Regex`: The tree of a regular expression.
* `Regex.height`: The number of nodes on a longest path from the root to a leaf.
-/

namespace FiniteState

/-- The tree of a regular expression. -/
inductive Regex
  /-- One of the symbols, usually the only one. -/
  | character (symbols : List Char)
  /-- A character in one of the closed ranges. -/
  | characterSet (ranges : List (Char × Char))
  /-- Any symbol. -/
  | wildcard
  /-- The place of a term where a pattern has ended. It has no automaton. -/
  | missing
  /-- The parts one after another. -/
  | concatenation (parts : List Regex)
  /-- One of the branches. -/
  | alternation (branches : List Regex)
  /-- The body once or more. -/
  | iteration (body : Regex)
  /-- The body or nothing. -/
  | optional (body : Regex)

namespace Regex

instance : Inhabited Regex := ⟨wildcard⟩

mutual

/-- The number of nodes on a longest path from the root to a leaf. -/
def height : Regex → Nat
  | character _ => 1
  | characterSet _ => 1
  | wildcard => 1
  | missing => 1
  | concatenation parts => heightAll parts + 1
  | alternation branches => heightAll branches + 1
  | iteration body => body.height + 1
  | optional body => body.height + 1

/-- The greatest height among trees. -/
def heightAll : List Regex → Nat
  | [] => 0
  | node :: rest => max node.height (heightAll rest)

end

end Regex

end FiniteState
