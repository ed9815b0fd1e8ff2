import FiniteState.Store
import FiniteState.Text.Blank
import FiniteState.Text.Lowercase

/-!
# Commands

A command line is a verb, in any letter case, and its arguments. Reading a line settles which
command it is and whether there are enough arguments; whether they make sense is settled when the
command is carried out.

The pattern of `regex`, `build` and `ast` is the whole rest of the line. All other arguments are
single words, and words too many are ignored.

## Main definitions

* `Conversion`: The operations that make a new automaton of one.
* `Command`: What a line asks for.
* `Command.ofLine?`: The command of a line that is not blank.
-/

namespace FiniteState

/-- The operations that make a new automaton of one. -/
inductive Conversion
  | reverse
  | determinize
  | minimize
deriving DecidableEq

namespace Conversion

/-- The verb of an operation, which also ends the name of its result. -/
def verb : Conversion → String
  | reverse => "rev"
  | determinize => "det"
  | minimize => "min"

/-- The result of an operation. -/
def apply : Conversion → Automaton → Automaton
  | reverse => Automaton.reverse
  | determinize => Automaton.determinize
  | minimize => Automaton.minimize

/-- Make the result of an operation in a store. -/
def construct : Conversion → Address → Store.Action Address
  | reverse => Store.reverse
  | determinize => Store.determinize
  | minimize => Store.minimize

end Conversion

/-- The two ways in which states are marked. -/
inductive Mark
  | starting
  | final
deriving DecidableEq

/-- Mark a state in this way, or no longer so. -/
def Mark.set : Mark → Int → Bool → Stored.Action Unit
  | starting => Stored.setStarting
  | final => Stored.setFinal

/-- What a line asks for. -/
inductive Command
  | exit
  | help
  | load (path : String)
  | list
  | create (name : String) (count : String)
  | connect (name : String) (source target label : String)
  | mark (kind : Mark) (name : String) (state : String) (value : Bool)
  | info (name : String)
  | dump (name : String)
  | test (name : String) (word : String)
  | convert (conversion : Conversion) (name : String) (result : String)
  | compile (name : String) (pattern : String)
  | build (name : String) (pattern : String)
  | outline (pattern : String)
  | matchText (pattern : String) (text : String)
  | delete (name : String)
  | clear
  /-- A command with too few arguments, and how it is used. -/
  | usage (form : String)
  /-- A verb that is none. -/
  | unknown (verb : String)
deriving DecidableEq

namespace Command

/-- The command with the verb of a conversion. -/
def ofConversion (conversion : Conversion) : List String → Command
  | [] => .usage (conversion.verb ++ " <name> [result]")
  | [name] => .convert conversion name (name ++ "_" ++ conversion.verb)
  | name :: result :: _ => .convert conversion name result

/-- The command that marks a state, or unmarks it if the word `off` follows. -/
def ofMark (kind : Mark) (verb : String) : List String → Command
  | name :: state :: value :: _ =>
    .mark kind name state (Text.lower value.toList ≠ "off".toList)
  | [name, state] => .mark kind name state true
  | _ => .usage (verb ++ " <name> <state> [off]")

/-- The command with a verb, given the words after it, and what stands after one and after two words
    of the line. -/
def ofVerb (verb : String) (arguments afterOne afterTwo : List String) : Command :=
  match verb, arguments with
  | "exit", _ => .exit
  | "quit", _ => .exit
  | "help", _ => .help
  | "load", path :: _ => .load path
  | "load", _ => .usage "load <filename>"
  | "list", _ => .list
  | "new", name :: count :: _ => .create name count
  | "new", _ => .usage "new <name> <states>"
  | "connect", name :: source :: target :: label :: _ => .connect name source target label
  | "connect", _ => .usage "connect <name> <s1> <s2> <symbol|eps|epsilon|ε>"
  | "starting", arguments => ofMark .starting "starting" arguments
  | "final", arguments => ofMark .final "final" arguments
  | "show", name :: _ => .info name
  | "show", _ => .usage "show <name>"
  | "print", name :: _ => .dump name
  | "print", _ => .usage "print <name>"
  | "test", name :: word :: _ => .test name word
  | "test", [name] => .test name ""
  | "test", _ => .usage "test <name> <word>"
  | "rev", arguments => ofConversion .reverse arguments
  | "det", arguments => ofConversion .determinize arguments
  | "min", arguments => ofConversion .minimize arguments
  | "regex", _ =>
    match afterTwo with
    | [name, pattern] => .compile name pattern
    | _ => .usage "regex <name> <pattern>"
  | "build", _ =>
    match afterTwo with
    | [name, pattern] => .build name pattern
    | _ => .usage "build <name> <pattern>"
  | "ast", _ => .outline (afterOne.headD "")
  | "match", pattern :: text :: _ => .matchText pattern text
  | "match", [pattern] => .matchText pattern ""
  | "match", _ => .usage "match <pattern> <text>"
  | "delete", name :: _ => .delete name
  | "delete", _ => .usage "delete <name>"
  | "clear", _ => .clear
  | _, _ => .unknown verb

/-- The pieces of a line after its first word, where so many words are cut off in all. -/
def pieces (count : Nat) (line : List Char) : List String :=
  ((Text.cutWords count line).drop 1).map String.ofList

/-- The command of a line, if it is not blank. -/
def ofLine? (line : List Char) : Option Command :=
  match Text.words line with
  | [] => none
  | verb :: arguments =>
    some (ofVerb (String.ofList (Text.lower verb)) (arguments.map String.ofList) (pieces 1 line)
      (pieces 2 line))

end Command

end FiniteState
