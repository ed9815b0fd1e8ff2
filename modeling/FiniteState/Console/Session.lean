import FiniteState.Automaton.Display
import FiniteState.Console.Command
import FiniteState.Description.Disk
import FiniteState.Pattern.Expression
import FiniteState.Regex.Outline

/-!
# Sessions

A session holds the automata and the regular expressions that have been given names. A command is
carried out on the session and on the screen, to which it adds lines. A command that fails has
changed neither.

Names and regular expressions refer to automata in a store by their addresses. Building a pattern
makes two changes: the regular expression gets the name, and then a copy of its automaton does. The
commands that change an automaton change the one that a name refers to, in place.

Where a command fails on the way to its result, nobody refers to the automata that it has made, and
they are given up. Changes to automata that were there before are not taken back by that.

## Main definitions

* `Session`: A store, and the automata and regular expressions under names.
* `Session.automata`, `Session.regexes`: What the names refer to.
* `Session.adopt`: Making the items of a file in a store.
* `Console`: A session and the text shown so far.
* `Console.Fault`: Why a command fails.
* `Console.perform`: Carrying out a command.
* `Console.execute`: Carrying out a line.
* `Console.run`: Carrying out lines one after another.
-/

namespace FiniteState

/-- Automata in a store, some of them under names, and regular expressions under names. -/
structure Session where
  store : Store
  addresses : Registry Address
  expressions : Registry Expression
deriving DecidableEq

namespace Session

/-- The session without any items. -/
def empty : Session := ⟨∅, ∅, ∅⟩

/-- The automata that names refer to. -/
def automata (session : Session) : Registry Stored :=
  session.addresses.map session.store.cell

/-- The regular expressions with the automata that they refer to. -/
def regexes (session : Session) : Registry Matcher :=
  session.expressions.map fun e => ⟨e.pattern, session.store.cell e.automaton⟩

/-- The addresses and the regular expressions of a file. -/
structure Adopted where
  addresses : Registry Address
  expressions : Registry Expression

/-- Make the items of a file in a store. -/
def adopt (loaded : Loaded) : Pattern.Action Adopted := do
  let addresses ← loaded.automata.mapM fun A => EStateM.adaptExcept .automaton (Store.rebuild A)
  let expressions ← loaded.regexes.mapM fun m => Expression.ofPattern m.pattern
  return ⟨addresses, expressions⟩

end Session

/-- A session and the text shown so far. -/
structure Console where
  session : Session
  shown : String
deriving DecidableEq

namespace Console

/-- Why a command fails. -/
inductive Fault
  /-- The line is blank. -/
  | blank
  /-- An argument has no integer value. -/
  | integer (text : String) (fault : Text.IntegerFault)
  /-- An argument is no state of the automaton. -/
  | missingState (text : String)
  /-- An automaton cannot be built or changed as told. -/
  | automaton (fault : Automaton.Fault)
  /-- An argument is no label. -/
  | description (fault : Description.Fault)
  /-- A pattern cannot be read. -/
  | regex (fault : Pattern.Fault)
  /-- A file cannot be read. -/
  | read (fault : ReadFault)
deriving DecidableEq

/-- The wording of a fault. -/
def Fault.message : Fault → String
  | blank => "list index out of range"
  | integer text fault => fault.message text.toList
  | missingState text => "Invalid state: " ++ text
  | automaton fault => fault.message
  | description fault => fault.message
  | regex fault => fault.message
  | read fault => fault.message

/-- Actions on a console. What an action has changed stays changed when it fails later. -/
abbrev Action := EStateM Fault Console

/-- Show a line. -/
def say (line : String) : Action Unit :=
  modify fun console => { console with shown := console.shown ++ line ++ "\n" }

/-- Show lines. -/
def sayAll (lines : List String) : Action Unit :=
  lines.forM say

/-- The session as it is. -/
def items : Action Session := do
  return (← get).session

/-- Change the session. -/
def change (f : Session → Session) : Action Unit :=
  modify fun console => { console with session := f console.session }

/-- The console with another store. -/
def withStore (console : Console) (store : Store) : Console :=
  { console with session := { console.session with store := store } }

/-- Do something to the store. If it fails, the automata that it has made are given up. -/
def onStore {ε α : Type} (fault : ε → Fault) (action : EStateM ε Store α) : Action α :=
  fun console =>
    let before := console.session.store
    match action before with
    | .ok value store => .ok value (console.withStore store)
    | .error e store => .error (fault e) (console.withStore (store.restore before))

/-- Find something out with the help of automata that are given up afterwards. -/
def aside {ε α : Type} (fault : ε → Fault) (action : EStateM ε Store α) : Action α :=
  fun console =>
    let before := console.session.store
    match action before with
    | .ok value store => .ok value (console.withStore (store.restore before))
    | .error e store => .error (fault e) (console.withStore (store.restore before))

/-- The value of a result, whose fault becomes one of the console. -/
def liftFault {ε α : Type} (fault : ε → Fault) : Except ε α → Action α
  | .ok value => return value
  | .error e => throw (fault e)

/-- The integer that an argument stands for. -/
def integer (text : String) : Action Int :=
  liftFault (.integer text) (Text.readInteger Text.maxDigits text.toList)

/-- The state of an automaton that an argument stands for. -/
def state (A : Automaton) (text : String) : Action Int := do
  let s ← integer text
  if 0 ≤ s ∧ s < A.size then
    return s
  throw (.missingState text)

/-- Let a name refer to an automaton. -/
def keep (name : String) (a : Address) : Action Unit :=
  change fun session => { session with addresses := session.addresses.insert name a }

/-- Let a name refer to a regular expression. -/
def keepExpression (name : String) (e : Expression) : Action Unit :=
  change fun session => { session with expressions := session.expressions.insert name e }

/-- Do something with the automaton under a name and its address, or say that there is none. -/
def withAutomaton (name : String) (body : Address → Stored → Action Unit) : Action Unit := do
  let session ← items
  match session.addresses.get? name with
  | some a => body a (session.store.cell a)
  | none => say ("Automaton not found: " ++ name)

/-- The commands with their arguments. -/
def helpText : String := "
Commands:
  LOADING:
    load <file>                  - Load automata/regexes from file
    list                         - List all loaded items

  BUILDING:
    new <name> <states>          - Create an empty automaton
    connect <n> <s1> <s2> <sym>  - Add a transition (sym: a single character or eps)
    starting <n> <state> [off]   - Mark (or unmark) a starting state
    final <n> <state> [off]      - Mark (or unmark) a final state

  AUTOMATA OPERATIONS:
    show <name>                  - Show automaton info
    print <name>                 - Print all transitions
    test <name> <word>           - Test if word is accepted

    TRANSFORMATIONS:
      rev <name> [result]        - Reverse
      det <name> [result]        - Determinize (subset construction)
      min <name> [result]        - Minimize

  REGEX OPERATIONS:
    regex <name> <pattern>       - Compile pattern to an automaton (Thompson)
    build <name> <pattern>       - Compile and minimize pattern
    ast <pattern>                - Show the syntax tree of a pattern
    match <pattern> <text>       - Test if text matches pattern

  GENERAL:
    delete <name>                - Delete item
    clear                        - Clear all
    exit                         - Exit
"

/-- The line that lists an automaton. -/
def automatonLine (entry : String × Stored) : String :=
  let name := entry.1
  let kind := if entry.2.isDeterministic then "deterministic" else "nondeterministic"
  let states := entry.2.size
  s!"  {name}: {kind}, {states} states"

/-- The line that lists a regular expression. -/
def regexLine (entry : String × Matcher) : String :=
  "  " ++ entry.1 ++ ": " ++ String.ofList entry.2.pattern

/-- The lines that list a session. -/
def listing (session : Session) : List String :=
  if session.automata.isEmpty && session.regexes.isEmpty then ["Nothing loaded"]
  else
    (if session.automata.isEmpty then []
      else "Automata:" :: session.automata.sorted.map automatonLine) ++
    (if session.regexes.isEmpty then []
      else "Regular Expressions:" :: session.regexes.sorted.map regexLine)

/-- The lines that show an automaton. -/
def infoLines (name : String) (A : Stored) : List String :=
  let states := A.size
  let alphabet := " ".intercalate (A.alphabet.toList.map String.singleton)
  let starting := showStates A.starting.toList
  let final := showStates A.final.toList
  let edges := A.edges.size
  [s!"\n{name}:", s!"  States: {states}", s!"  Alphabet: {alphabet}", s!"  Starting: {starting}",
    s!"  Final: {final}", s!"  Transitions: {edges}\n"]

/-- The number of items and their names, if there are any. -/
def itemCount {α : Type} (kind : String) (registry : Registry α) : List String :=
  if registry.isEmpty then []
  else
    let size := registry.size
    let names := ", ".intercalate registry.names
    [s!"{size} {kind}: {names}"]

/-- The line that reports what was loaded. -/
def loadedLine (loaded : Loaded) : String :=
  match itemCount "automata" loaded.automata ++ itemCount "regexes" loaded.regexes with
  | [] => "No items loaded"
  | counts => "Loaded " ++ " and ".intercalate counts

/-- Carry out a command. The result says whether the console goes on. -/
def perform (disk : Disk) : Command → Action Bool
  | .exit => return false
  | .help => do
    say helpText
    return true
  | .load path => do
    let loaded ← liftFault .read (disk.load path)
    let adopted ← onStore .regex (Session.adopt loaded)
    sayAll loaded.warnings
    change fun session =>
      { session with
        addresses := session.addresses.merge adopted.addresses
        expressions := session.expressions.merge adopted.expressions }
    say (loadedLine loaded)
    return true
  | .list => do
    sayAll (listing (← items))
    return true
  | .create name count => do
    let size ← integer count
    let a ← onStore .automaton (Store.create size [] [])
    keep name a
    say ("Created: " ++ name)
    return true
  | .connect name source target label => do
    withAutomaton name fun a A => do
      let s ← state A source
      let t ← state A target
      let l ← liftFault .description (Description.readLabel label.toList)
      onStore .automaton (Store.edit a (Stored.connect s t (String.ofList l.toList)))
    return true
  | .mark kind name text value => do
    withAutomaton name fun a A => do
      let s ← state A text
      onStore .automaton (Store.edit a (kind.set s value))
    return true
  | .info name => do
    withAutomaton name fun _ A => sayAll (infoLines name A)
    return true
  | .dump name => do
    withAutomaton name fun _ A => say A.dump
    return true
  | .test name word => do
    withAutomaton name fun _ A => say (if A.accepts word.toList then "ACCEPTED" else "REJECTED")
    return true
  | .convert conversion name result => do
    withAutomaton name fun a _ => do
      let b ← onStore .automaton (conversion.construct a)
      keep result b
      say ("Created: " ++ result)
    return true
  | .compile name pattern => do
    let a ← onStore .regex (Pattern.construct pattern.toList)
    keep name a
    say ("Created automaton: " ++ name)
    return true
  | .build name pattern => do
    let e ← onStore .regex (Expression.ofPattern pattern.toList)
    keepExpression name e
    let a ← onStore .automaton (Store.copy e.automaton)
    keep name a
    say ("Created automaton: " ++ name)
    return true
  | .outline pattern => do
    let node ← liftFault (fun error => .regex (.unreadable error)) (Pattern.parse pattern.toList)
    say node.outline
    return true
  | .matchText pattern text => do
    let session ← items
    let found ← match session.expressions.get? pattern with
      | some e => pure (e.run session.store text.toList)
      | none => aside .regex do
        let e ← Expression.ofPattern pattern.toList
        return e.run (← get) text.toList
    say (if found then "MATCH" else "NO MATCH")
    return true
  | .delete name => do
    let session ← items
    if session.addresses.contains name || session.expressions.contains name then
      change fun session =>
        { session with
          addresses := session.addresses.erase name
          expressions := session.expressions.erase name }
      say ("Deleted: " ++ name)
    else
      say ("Not found: " ++ name)
    return true
  | .clear => do
    change fun _ => .empty
    say "Cleared all"
    return true
  | .usage form => do
    say ("Usage: " ++ form)
    return true
  | .unknown verb => do
    say ("Unknown command: " ++ verb)
    return true

/-- Carry out a line. The result says whether the console goes on. -/
def execute (disk : Disk) (line : String) : Action Bool :=
  match Command.ofLine? line.toList with
  | some command => perform disk command
  | none => throw .blank

/-- The outcome of a line, and the session and the text shown for the line after it. -/
structure Step where
  outcome : Except Fault Bool
  console : Console

/-- Carry out a line on a session. -/
def step (disk : Disk) (session : Session) (line : String) : Step :=
  match execute disk line ⟨session, ""⟩ with
  | .ok goesOn console => ⟨.ok goesOn, console⟩
  | .error fault console => ⟨.error fault, console⟩

/-- Carry out lines one after another, whatever their outcomes. -/
def run (disk : Disk) (session : Session) : List String → List Step
  | [] => []
  | line :: rest =>
    let first := step disk session line
    first :: run disk first.console.session rest

end Console

end FiniteState
