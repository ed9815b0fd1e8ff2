import FiniteState.Proofs.Tables
import FiniteState.Proofs.Unsupported

/-!
# From Patterns to Matchers

Only reading can fail on the way from a pattern to its matcher. Once a pattern has a tree, every
stage that follows succeeds, since each of them meets what the stage before it has established: the
tree holds nothing but symbols, the automaton of every part of it has one entry and one exit, and
all automata that are made of these mention no state that they do not have.

A combination asks for the ends of its members, and fails if they have none. The remaining stages
hand the parts of an automaton to a constructor, which checks every mark and every edge, and in a
table the length of every row. None of this may be refused. `Automaton.Assembles` says so of marks
and edges, in every order in which they can come, and `Automaton.RowsFit` of the rows of the
subset construction. Well-formed automata pass both.

## Main definitions

* `Automaton.connectAll`: Connecting edges one after another, each of them checked.
* `Automaton.Assembles`: An automaton can be put together through the checks in any order.
* `Automaton.RowsFit`: The table of the subset construction passes the checks.
* `Pattern.Prepares`: What the stages after reading make of a tree.

## Theorems

* `Automaton.connect_eq_ok`: Edges that pass the checks.
* `Automaton.WellFormed.assembles`: Well-formed automata can be put together through the checks.
* `Regex.Supported.of_within`: The parts of a tree with symbols only have symbols only.
* `Matcher.ofPattern_eq_ok_iff`, `Matcher.ofPattern_eq_error_iff`: A matcher needs no more than an
  automaton.
* `Pattern.exists_prepares`: A pattern that can be read has its matcher.
* `Pattern.fault_iff_unreadable`: A pattern without a matcher is one that cannot be read.
-/

namespace FiniteState

namespace Automaton

variable {A : Automaton}

/-- Connect edges one after another. Each of them is checked. -/
def connectAll (A : Automaton) (edges : List Edge) : Except Fault Automaton :=
  edges.foldlM (fun B e => B.connect e.source e.target (String.ofList e.label.toList)) A

/-- An automaton is what its size, its marks and its edges make when they are handed in through the
    checks, in whatever order and however often each of them comes. -/
def Assembles (A : Automaton) : Prop :=
  ∀ (starting final : List Nat) (edges : List Edge), StateSet.ofList starting = A.starting →
    StateSet.ofList final = A.final → (∀ e, e ∈ edges ↔ e ∈ A.edges) →
      (create A.size (starting.map Int.ofNat) (final.map Int.ofNat) >>= fun B =>
        B.connectAll edges) = .ok A

/-- The table of the subset construction passes the checks, that of the length of its rows among
    them, and makes the determinized automaton. -/
def RowsFit (A : Automaton) : Prop :=
  ofTable (Stored.of A).symbolSlots (Stored.of A).table [0] (Stored.of A).finals =
    .ok A.determinize

theorem connect_eq_ok {e : Edge} (hsource : e.source < A.size) (htarget : e.target < A.size)
    (hlabel : ∀ c, e.label = some c → isSymbol c = true) :
    A.connect e.source e.target (String.ofList e.label.toList) = .ok (A.addEdge e) := by
  rw [connect, checkEdge_eq_ok hsource htarget hlabel]
  rfl

/-- Edges between states that exist, with symbols or epsilon as labels, are all connected. -/
theorem exists_connectAll {edges : List Edge}
    (hedges : ∀ e ∈ edges, e.source < A.size ∧ e.target < A.size ∧
      ∀ c, e.label = some c → isSymbol c = true) :
    ∃ B, A.connectAll edges = .ok B ∧ B.size = A.size ∧ B.starting = A.starting ∧
      B.final = A.final ∧ ∀ e, e ∈ B.edges ↔ e ∈ edges ∨ e ∈ A.edges := by
  -- The automaton changes from edge to edge, but its size, which the checks look at, does not.
  induction edges generalizing A with
  | nil => exact ⟨A, rfl, rfl, rfl, rfl, fun e => by simp⟩
  | cons e edges ih =>
    rcases List.forall_mem_cons.1 hedges with ⟨⟨hsource, htarget, hlabel⟩, hrest⟩
    rcases ih (A := A.addEdge e) hrest with ⟨B, hB, hsize, hstarting, hfinal, hmem⟩
    refine ⟨B, ?_, hsize, hstarting, hfinal, fun f => ?_⟩
    · rw [connectAll, List.foldlM_cons, connect_eq_ok hsource htarget hlabel]
      exact hB
    · rw [hmem, mem_edges_addEdge, List.mem_cons]
      tauto

/-- A well-formed automaton can be put together through the checks. -/
theorem WellFormed.assembles (hA : A.WellFormed) : A.Assembles := by
  intro starting final edges hstarting hfinal hedges
  -- The lists may come in any order and with repetitions, as the sets they make are the same.
  have hcreate : create A.size (starting.map Int.ofNat) (final.map Int.ofNat) =
      .ok ⟨A.size, A.starting, A.final, ∅⟩ := by
    rw [← hstarting, ← hfinal]
    refine create_eq_ok (fun s hs => hA.starting_lt s ?_) (fun s hs => hA.final_lt s ?_)
    · rwa [← hstarting, StateSet.mem_ofList]
    · rwa [← hfinal, StateSet.mem_ofList]
  have hchecked : ∀ e ∈ edges, e.source < A.size ∧ e.target < A.size ∧
      ∀ c, e.label = some c → isSymbol c = true := by
    intro e he
    have heA := (hedges e).1 he
    exact ⟨hA.source_lt e heA, hA.target_lt e heA, hA.isSymbol_of_label e heA⟩
  rcases exists_connectAll (A := ⟨A.size, A.starting, A.final, ∅⟩) hchecked with
    ⟨B, hB, hsize, hstart, hend, hmem⟩
  rw [hcreate]
  refine hB.trans (congrArg Except.ok (ext_edges hsize hstart hend fun e => ?_))
  rw [hmem, hedges]
  simp

end Automaton

namespace Regex

theorem supported_of_mem {nodes : List Regex} {node : Regex} (h : SupportedAll nodes)
    (hnode : node ∈ nodes) : node.Supported := by
  induction nodes with
  | nil => exact absurd hnode List.not_mem_nil
  | cons first rest ih =>
    rcases List.mem_cons.1 hnode with rfl | hrest
    · exact h.1
    · exact ih h.2 hrest

theorem Supported.of_within {part node : Regex} (h : node.Supported) (hpart : part.Within node) :
    part.Supported := by
  induction hpart with
  | itself => exact h
  | concatenation hnode _ ih => exact ih (supported_of_mem h hnode)
  | alternation hnode _ ih => exact ih (supported_of_mem h hnode)
  | iteration _ ih => exact ih h
  | optional _ ih => exact ih h

end Regex

namespace Matcher

variable {pattern : List Char}

theorem ofPattern_eq_ok_iff {m : Matcher} :
    ofPattern pattern = .ok m ↔
      ∃ A, Pattern.thompson pattern = .ok A ∧ m = ⟨pattern, A.minimize⟩ := by
  rw [ofPattern, build]
  cases Pattern.thompson pattern with
  | error fault => simp [bind, Except.bind]
  | ok A => simp [bind, Except.bind, pure, Except.pure, eq_comm]

theorem ofPattern_eq_error_iff {fault : Pattern.Fault} :
    ofPattern pattern = .error fault ↔ Pattern.thompson pattern = .error fault := by
  rw [ofPattern, build]
  cases Pattern.thompson pattern <;> simp [bind, Except.bind, pure, Except.pure]

end Matcher

namespace Pattern

variable {pattern : List Char} {node : Regex}

/-- What the stages after reading make of the tree of a pattern. None of them fails, since none of
    their automata is refused by the checks of states and labels, and none of their tables by that
    of rows. -/
structure Prepares (pattern : List Char) (node : Regex) (A : Automaton) : Prop where
  /-- Every part of the tree has an automaton with one entry and one exit, so that it can be
      combined further. -/
  parts : ∀ part : Regex, part.Within node →
    ∃ B ends, part.compile = .ok B ∧ B.ends = .ok ends ∧ B.Assembles
  compile_eq : node.compile = .ok A
  thompson_eq : thompson pattern = .ok A
  reverse : A.reverse.Assembles
  determinize : A.reverse.determinize.Assembles
  determinize_table : A.reverse.RowsFit
  codeterminize : A.codeterminize.Assembles
  minimize : A.minimize.Assembles
  minimize_table : A.codeterminize.RowsFit
  /-- There is one state for the walk to begin in. -/
  starting_eq : A.minimize.starting = .ofList [0]
  ofPattern_eq : Matcher.ofPattern pattern = .ok ⟨pattern, A.minimize⟩

/-- A pattern that can be read has its matcher. -/
theorem exists_prepares (h : parse pattern = .ok node) : ∃ A, Prepares pattern node A := by
  have hsupported : node.Supported := (parse_eq_ok_iff.1 h).supported
  rcases Regex.compile_eq_ok node hsupported with ⟨A, hA, hgated, -⟩
  have hthompson : thompson pattern = .ok A := by
    rw [thompson, h]
    change node.compile.mapError Fault.automaton = .ok A
    rw [hA]
    rfl
  have hwell := hgated.wellFormed
  refine ⟨A, ?_, hA, hthompson, hwell.reverse.assembles, hwell.reverse.determinize.assembles,
    hwell.reverse.ofTable_table, hwell.codeterminize.assembles, hwell.minimize.assembles,
    hwell.codeterminize.ofTable_table, rfl, Matcher.ofPattern_eq_ok_iff.2 ⟨A, hthompson, rfl⟩⟩
  -- Each subtree has symbols only, as the whole has, so it compiles as the whole does.
  intro part hpart
  rcases Regex.compile_eq_ok part (hsupported.of_within hpart) with ⟨B, hB, hgated, -⟩
  exact ⟨B, _, hB, hgated.ends_eq, hgated.wellFormed.assembles⟩

theorem thompson_eq_error_iff {fault : Fault} :
    thompson pattern = .error fault ↔
      ∃ error, parse pattern = .error error ∧ fault = .unreadable error := by
  cases hparse : parse pattern with
  | error error =>
    rw [thompson, hparse]
    simp [Except.mapError, bind, Except.bind, eq_comm]
  | ok node =>
    rcases exists_prepares hparse with ⟨A, hA⟩
    -- There is nothing else to fail, so neither side holds.
    simp [hA.thompson_eq]

/-- A pattern has no automaton and no matcher exactly if it cannot be read, and then the error of
    reading is reported. For a pattern that can be read, all that follows succeeds. -/
theorem fault_iff_unreadable (pattern : List Char) :
    (∀ fault, thompson pattern = .error fault ↔ ∃ error, parse pattern = .error error ∧
      fault = .unreadable error ∧ fault.message = error.message) ∧
    (∀ fault, Matcher.ofPattern pattern = .error fault ↔ ∃ error, parse pattern = .error error ∧
      fault = .unreadable error ∧ fault.message = error.message) ∧
    ∀ node, parse pattern = .ok node → ∃ A, Prepares pattern node A := by
  have hfault : ∀ fault, thompson pattern = .error fault ↔ ∃ error,
      parse pattern = .error error ∧ fault = .unreadable error ∧
        fault.message = error.message := by
    intro fault
    rw [thompson_eq_error_iff]
    constructor
    · intro h
      rcases h with ⟨error, hparse, rfl⟩
      exact ⟨error, hparse, rfl, rfl⟩
    · intro h
      rcases h with ⟨error, hparse, hunreadable, -⟩
      exact ⟨error, hparse, hunreadable⟩
  refine ⟨hfault, fun fault => ?_, fun node => exists_prepares⟩
  rw [Matcher.ofPattern_eq_error_iff, hfault]

theorem fault_iff_unreadable_openGroup :
    (thompson "a(b".toList = .error (.unreadable ⟨.unmatchedParenthesis, 1⟩) ∧
      Matcher.ofPattern "a(b".toList = .error (.unreadable ⟨.unmatchedParenthesis, 1⟩)) ∧
    parse "(a|)*[0-9]?\\+".toList = .ok sampleTree ∧
      ∃ A, Prepares "(a|)*[0-9]?\\+".toList sampleTree A := by
  have hopen : parse "a(b".toList = .error ⟨.unmatchedParenthesis, 1⟩ := by cbv
  have hsample : parse "(a|)*[0-9]?\\+".toList = .ok sampleTree := by cbv
  rcases fault_iff_unreadable "a(b".toList with ⟨hthompson, hmatcher, -⟩
  exact ⟨⟨(hthompson _).2 ⟨_, hopen, rfl, rfl⟩, (hmatcher _).2 ⟨_, hopen, rfl, rfl⟩⟩, hsample,
    (fault_iff_unreadable _).2.2 _ hsample⟩

end Pattern

end FiniteState
