import FiniteState.Automaton.Basic
import FiniteState.Automaton.Fault

/-!
# Construction

The ways to build an automaton from outside data, and the ways to change one. States come as
integers and labels as texts, the empty text standing for epsilon; nothing is taken over before it
has been checked. Arguments are checked in the order in which they are read: the number of states,
the starting states, the final states, then the edges one by one, and for an edge its source, its
target and its label.

A changed automaton is another value here. The changes of an automaton in its place do the same,
with the same checks.

## Main definitions

* `Automaton.create`: An automaton without edges.
* `Automaton.ofRelation`: From a list of triples.
* `Automaton.ofMatrix`: From a square matrix of labels.
* `Automaton.ofTable`: From the destinations of each state on each symbol.
* `Automaton.connect`, `Automaton.setStarting`, `Automaton.setFinal`: Changes to an automaton.

## Theorems

* `Automaton.checkState_eq_ok_iff`, `Automaton.checkLabel_eq_ok_iff`,
  `Automaton.checkEdge_eq_ok_iff`: What passes each check.
* `Automaton.checkEdge_eq_ok`: The triple of an edge between states passes.
-/

namespace FiniteState

namespace Automaton

/-- A state among `size` many. -/
def checkState (size : Nat) (state : Int) : Except Fault Nat :=
  if 0 ≤ state ∧ state < size then .ok state.toNat else .error (.missingState state size)

/-- A label: nothing for the empty text, else the one symbol that it holds. -/
def checkLabel (label : String) : Except Fault (Option Char) :=
  match label.toList with
  | [] => .ok none
  | [c] => if isSymbol c then .ok (some c) else .error (.invalidSymbol label)
  | _ => .error (.invalidSymbol label)

/-- An edge between two of `size` many states. -/
def checkEdge (size : Nat) (source : Int) (label : String) (target : Int) : Except Fault Edge := do
  let s ← checkState size source
  let t ← checkState size target
  let l ← checkLabel label
  return ⟨s, t, l⟩

theorem checkState_eq_ok_iff {size s : Nat} {state : Int} :
    checkState size state = .ok s ↔ (s : Int) = state ∧ s < size := by
  unfold checkState
  split
  next =>
    simp only [Except.ok.injEq]
    omega
  next =>
    simp only [reduceCtorEq, false_iff]
    omega

theorem checkLabel_eq_ok_iff {label : String} {l : Option Char} :
    checkLabel label = .ok l ↔ label.toList = l.toList ∧ ∀ c, l = some c → isSymbol c = true := by
  unfold checkLabel
  split
  next h => cases l <;> simp [h]
  next c h =>
    rw [h]
    cases l with
    | none => split <;> simp
    | some d =>
      by_cases hcd : c = d
      · subst hcd
        split <;> simp_all
      · split <;> simp [hcd]
  next hnil hone =>
    constructor
    · simp
    · intro h
      rcases h with ⟨h, -⟩
      cases l with
      | none => exact absurd h hnil
      | some c => exact absurd h (hone c)

theorem checkEdge_eq_ok_iff {size : Nat} {source target : Int} {label : String} {e : Edge} :
    checkEdge size source label target = .ok e ↔
      checkState size source = .ok e.source ∧ checkState size target = .ok e.target ∧
        checkLabel label = .ok e.label := by
  obtain ⟨s, t, l⟩ := e
  unfold checkEdge
  cases checkState size source <;> cases checkState size target <;> cases checkLabel label <;>
    simp [bind, Except.bind, pure, Except.pure]

/-- An edge between states, with a symbol or epsilon as its label, passes the checks. -/
theorem checkEdge_eq_ok {size : Nat} {e : Edge} (hsource : e.source < size)
    (htarget : e.target < size) (hlabel : ∀ c, e.label = some c → isSymbol c = true) :
    checkEdge size e.source (String.ofList e.label.toList) e.target = .ok e :=
  checkEdge_eq_ok_iff.2 ⟨checkState_eq_ok_iff.2 ⟨rfl, hsource⟩,
    checkState_eq_ok_iff.2 ⟨rfl, htarget⟩, checkLabel_eq_ok_iff.2 ⟨String.toList_ofList, hlabel⟩⟩

/-- An automaton with the given number of states, some of them marked, and no edges. -/
def create (count : Int) (starting final : List Int) : Except Fault Automaton := do
  if count < 0 then
    throw (.negativeCount count)
  let size := count.toNat
  let starting ← starting.mapM (checkState size)
  let final ← final.mapM (checkState size)
  return ⟨size, .ofList starting, .ofList final, ∅⟩

/-- An automaton from triples of source, label and target. -/
def ofRelation (count : Int) (relation : List (Int × String × Int)) (starting final : List Int) :
    Except Fault Automaton := do
  let A ← create count starting final
  let edges ← relation.mapM fun (source, label, target) => checkEdge A.size source label target
  return { A with edges := .ofList edges }

/-- The edges of one row of a matrix, which has one entry for each target. -/
def rowEdges (size : Nat) (row : List (List String)) (source : Nat) :
    Except Fault (List Edge) := do
  if row.length ≠ size then
    throw (.rowLength source row.length size)
  let entries ← row.zipIdx.mapM fun (labels, target) =>
    labels.mapM fun label => checkEdge size source label target
  return entries.flatten

/-- An automaton from a square matrix that holds the labels between every two states. -/
def ofMatrix (rows : List (List (List String))) (starting final : List Int) :
    Except Fault Automaton := do
  let A ← create rows.length starting final
  let edges ← rows.zipIdx.mapM fun (row, source) => rowEdges A.size row source
  return { A with edges := .ofList edges.flatten }

/-- The edges of one row of a table, which has one slot for each label. -/
def slotEdges (size : Nat) (slots : List String) (row : List (List Int)) (source : Nat) :
    Except Fault (List Edge) := do
  if row.length ≠ slots.length then
    throw (.slotCount source row.length slots.length)
  let entries ← (slots.zip row).mapM fun (label, targets) =>
    targets.mapM fun target => checkEdge size source label target
  return entries.flatten

/-- An automaton from a table with one row for each state. Its slots hold the destinations on the
    symbols of the alphabet in order, and in a last slot those on epsilon. -/
def ofTable (alphabet : List String) (table : List (List (List Int))) (starting final : List Int) :
    Except Fault Automaton := do
  let A ← create table.length starting final
  let edges ← table.zipIdx.mapM fun (row, source) =>
    slotEdges A.size (alphabet ++ [""]) row source
  return { A with edges := .ofList edges.flatten }

/-- The automaton with an edge between two of its states. -/
def connect (A : Automaton) (source target : Int) (label : String) : Except Fault Automaton := do
  let e ← checkEdge A.size source label target
  return A.addEdge e

/-- The automaton with a state marked as starting, or no longer so. -/
def setStarting (A : Automaton) (state : Int) (value : Bool) : Except Fault Automaton := do
  let s ← checkState A.size state
  return { A with starting := if value then A.starting.insert s else A.starting.erase s }

/-- The automaton with a state marked as final, or no longer so. -/
def setFinal (A : Automaton) (state : Int) (value : Bool) : Except Fault Automaton := do
  let s ← checkState A.size state
  return { A with final := if value then A.final.insert s else A.final.erase s }

end Automaton

end FiniteState
