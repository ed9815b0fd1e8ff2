import FiniteState.Automaton.Construction
import FiniteState.Proofs.Matching

/-!
# Consistency

Whatever way an automaton comes into existence, it is well formed: its states exist, and its labels
are symbols or epsilon. Its alphabet is the set of the symbols on its edges. It may as well be
recorded on the way, each symbol when an edge with it is connected. That comes to the same set
whatever the history of the automaton, by induction on the history.

From outside data, edges get into an automaton only after a check, so that all they can be is
checked edges. What is made of automata is well formed because the automata are, and the results of
the constructions themselves are cited for it.

## Main definitions

* `Automaton.Recorded`: The symbols recorded along a history of an automaton.
* `Automaton.Checked`: Edges that have passed the check.

## Theorems

* `Automaton.alphabet_addEdge`: Connecting an edge puts its symbol into the alphabet.
* `Automaton.Recorded.eq_alphabet`: What is recorded is the alphabet.
* `Automaton.recorded_alphabet`: Every automaton has a history.
* `Automaton.create_eq_ok`: States that pass the checks.
* `Automaton.WellFormed.withEdges`: Checked edges make a well-formed automaton.
* `Automaton.wellFormed_create`, `Automaton.wellFormed_ofRelation`: Constructors make well-formed
  automata.
* `Automaton.WellFormed.connect`, `Automaton.WellFormed.setStarting`,
  `Automaton.WellFormed.setFinal`, `Automaton.WellFormed.option`,
  `Automaton.WellFormed.iteration`: So do the operations on one automaton.
-/

namespace FiniteState

namespace Automaton

/-- The symbols that are recorded as the alphabet along a history of an automaton. There are none
    without edges; connecting an edge records its symbol, and marking states records nothing. -/
inductive Recorded : Automaton → Std.ExtTreeSet Char → Prop
  | blank (size : Nat) (starting final : StateSet) : Recorded ⟨size, starting, final, ∅⟩ ∅
  | connect {A : Automaton} {symbols : Std.ExtTreeSet Char} (h : Recorded A symbols) (e : Edge) :
      Recorded (A.addEdge e) (e.label.elim symbols symbols.insert)
  | mark {A : Automaton} {symbols : Std.ExtTreeSet Char} (h : Recorded A symbols)
      (starting final : StateSet) :
      Recorded { A with starting := starting, final := final } symbols

section Alphabet

variable {A : Automaton}

/-- Connecting an edge puts its symbol into the alphabet, and nothing else. -/
theorem alphabet_addEdge (A : Automaton) (e : Edge) :
    (A.addEdge e).alphabet = e.label.elim A.alphabet A.alphabet.insert := by
  refine Std.ExtTreeSet.ext_mem fun c => ?_
  have hsplit : c ∈ (A.addEdge e).alphabet ↔ e.label = some c ∨ c ∈ A.alphabet := by
    simp only [mem_alphabet, mem_edges_addEdge, or_and_right, exists_or, exists_eq_left]
  rw [hsplit]
  cases e.label with
  | none => simp
  | some d => simp [Std.ExtTreeSet.mem_insert]

theorem Recorded.eq_alphabet {symbols : Std.ExtTreeSet Char} (h : A.Recorded symbols) :
    symbols = A.alphabet := by
  induction h with
  | blank size starting final => rfl
  | connect _ e ih => rw [alphabet_addEdge, ih]
  | mark _ _ _ ih => exact ih

/-- Every automaton has a history, as its edges can be connected one after another. -/
theorem recorded_alphabet (A : Automaton) : A.Recorded A.alphabet := by
  have hedges : ∀ edges : List Edge,
      Recorded { A with edges := .ofList edges } ({ A with edges := .ofList edges }).alphabet := by
    intro edges
    induction edges with
    | nil => exact .blank A.size A.starting A.final
    | cons e edges ih =>
      have hcons : { A with edges := .ofList (e :: edges) } =
          addEdge { A with edges := .ofList edges } e :=
        ext_edges rfl rfl rfl fun f => by
          rw [mem_edges_addEdge, Edge.mem_ofList, Edge.mem_ofList, List.mem_cons]
      rw [hcons, alphabet_addEdge]
      exact ih.connect e
  -- Connecting the edges in the order of the set makes the set again.
  have hall : A = { A with edges := .ofList A.edges.toList } :=
    ext_edges rfl rfl rfl fun e => by rw [Edge.mem_ofList, Std.ExtTreeSet.mem_toList]
  rw [hall]
  exact hedges A.edges.toList

end Alphabet

/-! ### Automata from outside data -/

/-- An edge has passed the check of an automaton with `size` states. -/
def Checked (size : Nat) (e : Edge) : Prop :=
  ∃ source target label, checkEdge size source label target = .ok e

section Construction

variable {A B : Automaton} {e : Edge} {edges : List Edge} {size : Nat}

theorem Checked.lt (h : Checked size e) : e.source < size ∧ e.target < size := by
  rcases h with ⟨source, target, label, hcheck⟩
  rcases checkEdge_eq_ok_iff.1 hcheck with ⟨hsource, htarget, -⟩
  exact ⟨(checkState_eq_ok_iff.1 hsource).2, (checkState_eq_ok_iff.1 htarget).2⟩

theorem Checked.isSymbol (h : Checked size e) : ∀ c, e.label = some c → isSymbol c = true := by
  rcases h with ⟨source, target, label, hcheck⟩
  exact (checkLabel_eq_ok_iff.1 (checkEdge_eq_ok_iff.1 hcheck).2.2).2

/-- In place of the edges of a well-formed automaton, checked edges make a well-formed automaton. -/
theorem WellFormed.withEdges (h : A.WellFormed) (hedges : ∀ e ∈ edges, Checked A.size e) :
    WellFormed { A with edges := .ofList edges } where
  starting_lt := h.starting_lt
  final_lt := h.final_lt
  source_lt e he := (hedges e (Edge.mem_ofList.1 he)).lt.1
  target_lt e he := (hedges e (Edge.mem_ofList.1 he)).lt.2
  isSymbol_of_label e he := (hedges e (Edge.mem_ofList.1 he)).isSymbol

theorem mapM_checkState_eq_ok {size : Nat} {states : List Nat} (h : ∀ s ∈ states, s < size) :
    (states.map Int.ofNat).mapM (checkState size) = .ok states := by
  rw [mapM_eq_ok_iff, List.forall₂_map_left_iff, List.forall₂_same]
  exact fun s hs => checkState_eq_ok_iff.2 ⟨rfl, h s hs⟩

theorem create_eq_ok {size : Nat} {starting final : List Nat} (hstarting : ∀ s ∈ starting, s < size)
    (hfinal : ∀ s ∈ final, s < size) :
    create size (starting.map Int.ofNat) (final.map Int.ofNat) =
      .ok ⟨size, .ofList starting, .ofList final, ∅⟩ := by
  unfold create
  refine guard_eq_ok_iff.2 ⟨by omega, ?_⟩
  simp only [Int.toNat_natCast, mapM_checkState_eq_ok hstarting, mapM_checkState_eq_ok hfinal]
  rfl

theorem wellFormed_create {count : Int} {starting final : List Int}
    (h : create count starting final = .ok A) : A.WellFormed := by
  have hstates : ∀ (states : List Int) (found : List Nat),
      states.mapM (checkState count.toNat) = .ok found → ∀ s ∈ found, s < count.toNat :=
    fun _ _ hfound => forall_mem_of_mapM hfound fun _ _ hs => (checkState_eq_ok_iff.1 hs).2
  unfold create at h
  have hrest := (guard_eq_ok_iff.1 h).2
  simp only [bind_eq_ok_iff] at hrest
  rcases hrest with ⟨starting, hstarting, final, hfinal, hA⟩
  cases hA
  refine ⟨fun s hs => ?_, fun s hs => ?_, ?_, ?_, ?_⟩
  · exact hstates _ _ hstarting s (StateSet.mem_ofList.1 hs)
  · exact hstates _ _ hfinal s (StateSet.mem_ofList.1 hs)
  -- There are no edges yet.
  all_goals simp

theorem wellFormed_ofRelation {count : Int} {relation : List (Int × String × Int)}
    {starting final : List Int} (h : ofRelation count relation starting final = .ok A) :
    A.WellFormed := by
  rcases bind_eq_ok_iff.1 h with ⟨B, hB, hrest⟩
  rcases bind_eq_ok_iff.1 hrest with ⟨edges, hedges, hA⟩
  cases hA
  refine (wellFormed_create hB).withEdges (forall_mem_of_mapM hedges fun triple e he => ?_)
  exact ⟨triple.1, triple.2.2, triple.2.1, he⟩

end Construction

/-! ### Automata from automata -/

section Change

variable {A B : Automaton} {members : List Automaton}

theorem WellFormed.connect (hA : A.WellFormed) {source target : Int} {label : String}
    (h : A.connect source target label = .ok B) : B.WellFormed := by
  rcases bind_eq_ok_iff.1 h with ⟨e, he, hB⟩
  cases hB
  have hchecked : Checked A.size e := ⟨source, target, label, he⟩
  exact hA.addEdge hchecked.lt.1 hchecked.lt.2 hchecked.isSymbol

/-- A set with a state put in or taken out has states of an automaton still. -/
theorem lt_of_mem_marked {states : StateSet} {size s t : Nat} {value : Bool}
    (hstates : ∀ t ∈ states, t < size) (hs : s < size)
    (ht : t ∈ if value then states.insert s else states.erase s) : t < size := by
  cases value with
  | true =>
    rcases StateSet.mem_insert.1 ht with rfl | ht
    · exact hs
    · exact hstates t ht
  | false => exact hstates t (StateSet.mem_erase.1 ht).2

theorem WellFormed.setStarting (hA : A.WellFormed) {state : Int} {value : Bool}
    (h : A.setStarting state value = .ok B) : B.WellFormed := by
  rcases bind_eq_ok_iff.1 h with ⟨s, hs, hB⟩
  cases hB
  have hlt := (checkState_eq_ok_iff.1 hs).2
  exact ⟨fun t ht => lt_of_mem_marked hA.starting_lt hlt ht, hA.final_lt, hA.source_lt,
    hA.target_lt, hA.isSymbol_of_label⟩

theorem WellFormed.setFinal (hA : A.WellFormed) {state : Int} {value : Bool}
    (h : A.setFinal state value = .ok B) : B.WellFormed := by
  rcases bind_eq_ok_iff.1 h with ⟨s, hs, hB⟩
  cases hB
  have hlt := (checkState_eq_ok_iff.1 hs).2
  exact ⟨hA.starting_lt, fun t ht => lt_of_mem_marked hA.final_lt hlt ht, hA.source_lt,
    hA.target_lt, hA.isSymbol_of_label⟩

theorem WellFormed.option (hA : A.WellFormed) (h : A.option = .ok B) : B.WellFormed := by
  rcases bind_eq_ok_iff.1 h with ⟨ends, hends, hB⟩
  cases hB
  have hlt := hA.ends_lt hends
  exact hA.addEpsilon hlt.1 hlt.2

theorem WellFormed.iteration (hA : A.WellFormed) (h : A.iteration = .ok B) : B.WellFormed := by
  rcases bind_eq_ok_iff.1 h with ⟨ends, hends, hB⟩
  cases hB
  have hlt := hA.ends_lt hends
  exact hA.addEpsilon hlt.2 hlt.1

end Change

end Automaton

end FiniteState
