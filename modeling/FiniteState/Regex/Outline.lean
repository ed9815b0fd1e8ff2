import FiniteState.Regex.Basic

/-!
# Outlines

The outline of a tree is a text with a line for each leaf and an opening and a closing line for each
inner node. The lines between those two are indented by four spaces more.

## Main definitions

* `Regex.outlineLines`: The lines of a tree at a level of indentation.
* `Regex.outline`: The outline of a tree.
-/

namespace FiniteState

namespace Regex

/-- A line at a level of indentation. -/
def indented (level : Nat) (line : String) : String :=
  String.ofList (List.replicate (4 * level) ' ') ++ line

/-- The symbols of a character leaf between quotes. A lone quote has a backslash before it. -/
def quotedSymbols (symbols : List Char) : String :=
  if symbols = ['"'] then "\"\\\"\"" else "\"" ++ String.ofList symbols ++ "\""

/-- The line of a range. A range of one character is shown as that character. -/
def rangeLine (range : Char × Char) : String :=
  let low := String.singleton range.1
  let high := String.singleton range.2
  if range.1 = range.2 then "Character \x7b " ++ low ++ " \x7d"
  else "Range \x7b " ++ low ++ "-" ++ high ++ " \x7d"

/-- Lines between an opening line with a name and a closing line. -/
def enclosed (level : Nat) (name : String) (lines : List String) : List String :=
  indented level (name ++ " \x7b") :: (lines ++ [indented level "\x7d"])

mutual

/-- The lines of a tree at a level of indentation. -/
def outlineLines (level : Nat) : Regex → List String
  | character symbols =>
    [indented level ("CharacterNode \x7b " ++ quotedSymbols symbols ++ " \x7d")]
  | characterSet ranges =>
    enclosed level "CharacterSetNode"
      (ranges.map fun range => indented (level + 1) (rangeLine range))
  | wildcard => [indented level "WildcardNode \x7b\x7d"]
  | missing => [indented level "CharacterNode \x7b \"None\" \x7d"]
  | concatenation parts => enclosed level "ConcatenationNode" (outlineAll (level + 1) parts)
  | alternation branches => enclosed level "GroupNode" (outlineAll (level + 1) branches)
  | iteration body => enclosed level "IterationNode" (outlineLines (level + 1) body)
  | optional body => enclosed level "OptionalNode" (outlineLines (level + 1) body)

/-- The lines of trees at a level of indentation. -/
def outlineAll (level : Nat) : List Regex → List String
  | [] => []
  | node :: rest => outlineLines level node ++ outlineAll level rest

end

/-- The outline of a tree. -/
def outline (node : Regex) : String :=
  "\n".intercalate (outlineLines 0 node)

end Regex

end FiniteState
