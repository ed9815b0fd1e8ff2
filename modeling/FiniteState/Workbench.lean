import FiniteState.Automaton.Display
import FiniteState.Pattern.Expression
import FiniteState.Registry

/-!
# Workbench

Programs over named automata. An instruction builds an automaton under a name, changes a named one,
or asks something about it. Names are looked up before anything else is done. They stand for
addresses in a store, so a change is made to the automaton that a name refers to, and an automaton
whose name has been given to another one is still there.

## Main definitions

* `Workbench.Instruction`: What can be done on the workbench.
* `Workbench.Answer`: What is shown for an instruction.
* `Workbench.Fault`: Why an instruction fails.
* `Workbench`: A store, and the names of automata in it.
* `Workbench.perform`: Carrying out an instruction.
* `Workbench.run`: Carrying out a program.
-/

namespace FiniteState

/-- A store, and the names of automata in it. -/
structure Workbench where
  store : Store
  names : Registry Address

namespace Workbench

instance : EmptyCollection Workbench := ⟨⟨∅, ∅⟩⟩

/-- The operations that make a new automaton of one. -/
inductive Transformation
  | copy
  | reverse
  | determinize
  | minimize
  | option
  | iteration

/-- The operations that make a new automaton of several. -/
inductive Junction
  | concatenation
  | disjunction

/-- What can be asked about an automaton. -/
inductive Question
  | parts
  | matrix
  | shifted (offset : Int)
  | closures
  | isDeterministic
  | accepts (words : List String)
  | isAtomic
  | entry
  | exit
  | dump
  | summary

/-- What can be done on the workbench. -/
inductive Instruction
  /-- Build an automaton without edges. -/
  | create (name : String) (count : Int) (starting final : List Int)
  /-- Build an automaton from a matrix of labels. -/
  | ofMatrix (name : String) (rows : List (List (List String))) (starting final : List Int)
  /-- Build an automaton from a table of destinations. An unordered alphabet is sorted first. -/
  | ofTable (name : String) (alphabet : List String) (ordered : Bool)
      (table : List (List (List Int))) (starting final : List Int)
  /-- Build an automaton from triples. -/
  | ofRelation (name : String) (count : Int) (relation : List (Int × String × Int))
      (starting final : List Int)
  /-- Build the automaton of the tree of a pattern. -/
  | ofPattern (name : String) (pattern : String)
  /-- Build an automaton from one. -/
  | transform (name : String) (operation : Transformation) (operand : String)
  /-- Build an automaton from several. -/
  | join (name : String) (operation : Junction) (operands : List String)
  /-- Add an edge. -/
  | connect (name : String) (source target : Int) (label : String)
  /-- Mark or unmark a starting state. -/
  | setStarting (name : String) (state : Int) (value : Bool)
  /-- Mark or unmark a final state. -/
  | setFinal (name : String) (state : Int) (value : Bool)
  /-- Ask about an automaton. -/
  | ask (name : String) (question : Question)
  /-- Ask whether an automaton equals another. -/
  | equal (name : String) (other : Option String)

/-- What is shown for an instruction. -/
inductive Answer
  | automaton (A : Stored)
  | matrix (rows : List (List (List (Option Char))))
  | triples (relation : List (Int × Option Char × Int))
  | sets (members : List (List Nat))
  | flag (value : Bool)
  | flags (values : List Bool)
  | state (s : Nat)
  | text (lines : String)
  | done

/-- Why an instruction fails. -/
inductive Fault
  /-- A name has no automaton. -/
  | unknownName (name : String)
  /-- An automaton cannot be built or changed as told. -/
  | automaton (fault : Automaton.Fault)
  /-- A pattern has no automaton. -/
  | pattern (fault : Pattern.Fault)

/-- Actions on the workbench. What an action has changed stays changed when it fails later. -/
abbrev Action := EStateM Fault Workbench

/-- Do something to the store. -/
def onStore {ε α : Type} (fault : ε → Fault) (action : EStateM ε Store α) : Action α := fun bench =>
  match action bench.store with
  | .ok value store => .ok value { bench with store := store }
  | .error error store => .error (fault error) { bench with store := store }

/-- The address under a name. -/
def find (name : String) : Action Address := do
  match (← get).names.get? name with
  | some a => return a
  | none => throw (.unknownName name)

/-- The automaton at an address. -/
def look (a : Address) : Action Stored := do
  return (← get).store.cell a

/-- Show the automaton at an address. -/
def present (a : Address) : Action Answer := do
  return .automaton (← look a)

/-- Put an address under a name and show the automaton there. -/
def keep (name : String) (a : Address) : Action Answer := do
  modify fun bench => { bench with names := bench.names.insert name a }
  present a

/-- Change the automaton under a name in place and show it. -/
def alter (name : String) (change : Stored.Action Unit) : Action Answer := do
  let a ← find name
  onStore .automaton (Store.edit a change)
  present a

/-- The labels in ascending order, each of them once. -/
def sortedLabels (labels : List String) : List String :=
  (Std.ExtTreeSet.ofList labels).toList

/-- The automaton that an operation makes of one. -/
def transformed (a : Address) : Transformation → Store.Action Address
  | .copy => Store.copy a
  | .reverse => Store.reverse a
  | .determinize => Store.determinize a
  | .minimize => Store.minimize a
  | .option => Store.option a
  | .iteration => Store.iteration a

/-- The automaton that an operation makes of several. -/
def joined (members : List Address) : Junction → Store.Action Address
  | .concatenation => Store.concatenation members
  | .disjunction => Store.disjunction members

/-- What an automaton answers to a question. -/
def answer (A : Stored) : Question → Except Automaton.Fault Answer
  | .parts => .ok (.automaton A)
  | .matrix => .ok (.matrix A.matrix)
  | .shifted offset => .ok (.triples (A.shifted offset))
  | .closures => .ok (.sets (A.closures.toList.map StateSet.toList))
  | .isDeterministic => .ok (.flag A.isDeterministic)
  | .accepts words => .ok (.flags (words.map fun word => A.accepts word.toList))
  | .isAtomic => A.ends.map fun _ => .done
  | .entry => A.ends.map fun ends => .state ends.entry
  | .exit => A.ends.map fun ends => .state ends.exit
  | .dump => .ok (.text A.dump)
  | .summary => .ok (.text A.summary)

/-- Carry out an instruction. -/
def perform : Instruction → Action Answer
  | .create name count starting final => do
    keep name (← onStore .automaton (Store.create count starting final))
  | .ofMatrix name rows starting final => do
    keep name (← onStore .automaton (Store.ofMatrix rows starting final))
  | .ofTable name alphabet ordered table starting final => do
    let labels := if ordered then alphabet else sortedLabels alphabet
    keep name (← onStore .automaton (Store.ofTable labels table starting final))
  | .ofRelation name count relation starting final => do
    keep name (← onStore .automaton (Store.ofRelation count relation starting final))
  | .ofPattern name pattern => do
    keep name (← onStore .pattern (Pattern.construct pattern.toList))
  | .transform name operation operand => do
    let a ← find operand
    keep name (← onStore .automaton (transformed a operation))
  | .join name operation operands => do
    let members ← operands.mapM find
    keep name (← onStore .automaton (joined members operation))
  | .connect name source target label => alter name (Stored.connect source target label)
  | .setStarting name state value => alter name (Stored.setStarting state value)
  | .setFinal name state value => alter name (Stored.setFinal state value)
  | .ask name question => do
    let A ← look (← find name)
    match answer A question with
    | .ok value => return value
    | .error fault => throw (.automaton fault)
  | .equal name other => do
    let a ← find name
    match other with
    | none => return .flag false
    | some other =>
      let b ← find other
      return .flag ((← look a).toAutomaton = (← look b).toAutomaton)

/-- The outcome of an instruction, and the workbench after it. -/
structure Step where
  outcome : Except Fault Answer
  after : Workbench

/-- Carry out an instruction on a workbench. -/
def step (bench : Workbench) (instruction : Instruction) : Step :=
  match perform instruction bench with
  | .ok value after => ⟨.ok value, after⟩
  | .error fault after => ⟨.error fault, after⟩

/-- Carry out a program. It goes on after an instruction that fails. -/
def run (bench : Workbench) : List Instruction → List Step
  | [] => []
  | instruction :: rest =>
    let first := step bench instruction
    first :: run first.after rest

end Workbench

end FiniteState
