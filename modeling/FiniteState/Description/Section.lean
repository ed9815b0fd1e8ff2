import FiniteState.Text.Blank
import FiniteState.Text.Cut
import FiniteState.Text.WordChar

/-!
# Sections

A content with several descriptions in it is divided by header lines. A header is a name and a
colon, with nothing after them but spaces and tabs; the name begins with an ASCII letter, goes on in
word characters, and is not a keyword of descriptions.

## Main definitions

* `headerName?`: The name in a header line.
* `Section`: A name and the text up to the next header.
* `sections`: The sections of a content.
-/

namespace FiniteState

namespace Description

/-- The names that cannot head a section. -/
def keywords : List String :=
  ["states", "start", "accept", "regex", "pattern"]

/-- Whether a character is a letter of the ASCII alphabet. -/
def isAsciiLetter (c : Char) : Bool :=
  ('a' ≤ c && c ≤ 'z') || ('A' ≤ c && c ≤ 'Z')

/-- The name in a header line, if the line is one. -/
def headerName? (line : List Char) : Option (List Char) :=
  let name := line.takeWhile Text.isWordChar
  match line.dropWhile Text.isWordChar with
  | ':' :: rest =>
    if name.head?.any isAsciiLetter && rest.all (fun c => c == ' ' || c == '\t') &&
        !keywords.contains (String.ofList name) then
      some name
    else none
  | _ => none

/-- A name and the text below it, without the blanks at its ends. -/
structure Section where
  name : List Char
  body : List Char
deriving DecidableEq

/-- The lines before the first header, and the sections after it. -/
def divide : List (List Char) → List (List Char) × List Section
  | [] => ([], [])
  | line :: rest =>
    let (above, found) := divide rest
    match headerName? line with
    | some name => ([], ⟨name, Text.trim (Text.unlines above)⟩ :: found)
    | none => (line :: above, found)

/-- The sections of a content. What stands before the first header belongs to none. -/
def sections (content : List Char) : List Section :=
  (divide (Text.lines content)).2

end Description

end FiniteState
