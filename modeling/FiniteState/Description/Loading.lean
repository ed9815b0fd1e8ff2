import FiniteState.Description.Reader
import FiniteState.Description.Section
import FiniteState.Pattern.Matcher
import FiniteState.Registry

/-!
# Loading

What the content of a file provides. With sections, each of them provides an automaton or a pattern
under its name. Without, the content is a single pattern or any number of automata with `---`
between them, and their names come from the name of the file.

An item that cannot be read is left out with a warning.

A description gathers what its lines say in sets, and their order shows if two numerals in it have
the same value. The reader of descriptions is therefore a parameter, so that it can be asked what
becomes of a file with a reader that goes through the sets in another order.

## Main definitions

* `Loaded`: The items of a file, and the warnings.
* `Loaded.baseName`: The name of a file without directories and extension.
* `Loaded.ofContentBy`, `Loaded.ofContent`: The items of a content, with any reader and with that of
  descriptions.
-/

namespace FiniteState

/-- The items of a file, and the warnings about those that cannot be read. -/
structure Loaded where
  automata : Registry Automaton
  regexes : Registry Matcher
  warnings : List String
deriving DecidableEq

namespace Loaded

/-- Nothing loaded. -/
def nothing : Loaded := ⟨∅, ∅, []⟩

/-- Add the automaton of a description, or a warning with a text in place of the fault. -/
def addOutcome (loaded : Loaded) (name : String) : Except Description.Fault Description → Loaded
  | .ok described => { loaded with automata := loaded.automata.insert name described.automaton }
  | .error fault =>
    let message := fault.message
    { loaded with
      warnings := loaded.warnings ++
        [s!"Warning: Failed to load automaton '{name}': {message}"] }

/-- Why the pattern of a content has no matcher. -/
inductive PatternFault
  | description (fault : Description.Fault)
  | regex (fault : Pattern.Fault)

/-- The wording of a fault. -/
def PatternFault.message : PatternFault → String
  | description fault => fault.message
  | regex fault => fault.message

/-- The matcher of the pattern that a content declares. -/
def matcherOf (content : List Char) : Except PatternFault Matcher := do
  let pattern ← (Description.patternOf content).mapError .description
  (Matcher.ofPattern pattern).mapError .regex

/-- Add the pattern that a content declares, or a warning that begins with a text. -/
def addRegex (loaded : Loaded) (name : String) (warning : String) (content : List Char) : Loaded :=
  match matcherOf content with
  | .ok m => { loaded with regexes := loaded.regexes.insert name m }
  | .error fault =>
    { loaded with warnings := loaded.warnings ++ [warning ++ ": " ++ fault.message] }

/-- The name of a file without its directories and its extension. -/
def baseName (path : List Char) : List Char :=
  let file := (path.reverse.takeWhile (· ≠ '/')).reverse
  match file.reverse.dropWhile (· ≠ '.') with
  | [] => file
  | _ :: stem => stem.reverse

/-- The descriptions of automata between the separators of a content, blank ones left out. -/
def blocks (content : List Char) : List (List Char) :=
  (Text.cutAt ['-', '-', '-'] content).filter fun block => Text.trim block ≠ []

/-- The name of the automaton at a place among those of a file. -/
def blockName (base : List Char) (place : Nat) : String :=
  String.ofList base ++ if place = 0 then "" else Nat.repr place

section Reader

variable (reader : List Char → Except Description.Fault Description)

/-- Add what a section provides, where descriptions are left to a reader. -/
def addSectionBy (loaded : Loaded) (part : Description.Section) : Loaded :=
  let name := String.ofList part.name
  if part.body.isEmpty then loaded
  else if Description.isPattern part.body then
    loaded.addRegex name s!"Warning: Failed to load regex '{name}'" part.body
  else loaded.addOutcome name (reader part.body)

/-- The items of a content, which comes from a file with a name, where descriptions are left to a
    reader. -/
def ofContentBy (path : List Char) (content : List Char) : Loaded :=
  match Description.sections content with
  | [] =>
    let base := baseName path
    if Description.isPattern content then
      nothing.addRegex (String.ofList base) "Warning: Failed to load regex" content
    else
      (blocks content).zipIdx.foldl
        (fun loaded (block, place) => loaded.addOutcome (blockName base place) (reader block))
        nothing
  | parts => parts.foldl (addSectionBy reader) nothing

end Reader

/-- Add the automaton that a content describes, or a warning. -/
def addAutomaton (loaded : Loaded) (name : String) (content : List Char) : Loaded :=
  loaded.addOutcome name (Description.read content)

/-- Add what a section provides. -/
def addSection (loaded : Loaded) (part : Description.Section) : Loaded :=
  loaded.addSectionBy Description.read part

/-- The items of a content, which comes from a file with a name. -/
def ofContent (path : List Char) (content : List Char) : Loaded :=
  ofContentBy Description.read path content

end Loaded

end FiniteState
