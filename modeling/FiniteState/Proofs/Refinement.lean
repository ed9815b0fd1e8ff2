import FiniteState.Proofs.Separation
import FiniteState.Proofs.Tables

/-!
# Automata in Stores

Every operation on a store leaves at its address the automaton that the operation on values makes,
and it fails with the same fault where that one fails. So whatever is known of the operations on
values is known of automata in stores, their languages and sizes included.

The two are written differently. The operations on values make an automaton at one stroke; those on
a store put an empty one into a cell and connect edge after edge, each of them checked. That no edge
is refused on the way is what has to be shown. It follows from the result: if that is well formed,
then all its edges pass, in any order.

A combination reads its members while it fills another cell, so that they have to be in other cells.
They are, since the new cell has come after them.

## Main definitions

* `Address.Holds`: A well-formed automaton is at an address, with the symbols on its edges recorded.

## Theorems

* `Address.Holds.keep`, `Address.Holds.put_of_ne`: What an automaton in a store survives.
* `Store.edit_cases`, `Store.edit_connect`, `Store.edit_setStarting`, `Store.edit_setFinal`: Changes
  in place.
* `Store.tracks_fill`: Filling a new automaton with edges.
* `Store.tracks_create`, `Store.tracks_ofRelation`, `Store.tracks_ofMatrix`,
  `Store.tracks_ofTable`: Automata from outside data.
* `Store.tracks_copy`, `Store.tracks_reverse`, `Store.tracks_determinize`,
  `Store.tracks_minimize`, `Store.tracks_option`, `Store.tracks_iteration`: Automata from one.
* `Store.tracks_concatenation`, `Store.tracks_disjunction`: Automata from several.
-/

namespace FiniteState

namespace Automaton

variable {A B : Automaton} {edges more : List Edge}

theorem addEdges_append (A : Automaton) (edges more : List Edge) :
    A.addEdges (edges ++ more) = (A.addEdges edges).addEdges more := by
  simp [addEdges]

/-- An automaton with some of the edges of a well-formed one is well formed. -/
theorem WellFormed.of_append (h : (A.addEdges (edges ++ more)).WellFormed) :
    (A.addEdges edges).WellFormed := by
  rw [addEdges_append] at h
  have hmem : ∀ e ∈ (A.addEdges edges).edges, e ∈ ((A.addEdges edges).addEdges more).edges :=
    fun e he => mem_edges_addEdges.2 (Or.inr he)
  exact ⟨h.starting_lt, h.final_lt, fun e he => h.source_lt e (hmem e he),
    fun e he => h.target_lt e (hmem e he), fun e he => h.isSymbol_of_label e (hmem e he)⟩

/-- If an automaton is well formed with more edges, then these pass the checks. -/
theorem WellFormed.mapM_checkEdge (h : (A.addEdges edges).WellFormed) :
    (edges.map Edge.triple).mapM (fun (source, label, target) =>
      checkEdge A.size source label target) = .ok edges := by
  rw [mapM_eq_ok_iff, List.forall₂_map_left_iff, List.forall₂_same]
  intro e he
  have hmem : e ∈ (A.addEdges edges).edges := mem_edges_addEdges.2 (Or.inl he)
  exact checkEdge_eq_ok (h.source_lt e hmem) (h.target_lt e hmem) (h.isSymbol_of_label e hmem)

/-- Edges that are put in place of none are added. -/
theorem create_bind_edges {count : Int} {starting final : List Int}
    (check : Automaton → Except Fault (List Edge)) :
    (do
      let A ← create count starting final
      let edges ← check A
      return { A with edges := .ofList edges }) = (do
      let A ← create count starting final
      let edges ← check A
      return A.addEdges edges) := by
  cases hcreate : create count starting final with
  | error fault => rfl
  | ok A =>
    -- Nothing has been connected at this point.
    have hempty : A.edges = ∅ := by
      rcases create_eq_ok_iff.1 hcreate with ⟨-, _, _, -, -, rfl⟩
      rfl
    refine congrArg (check A >>= ·) (funext fun edges => ?_)
    rw [addEdges_of_edges_eq_empty hempty]

end Automaton

/-- A well-formed automaton is at an address of a store, and the symbols on its edges have been
    recorded for it. -/
structure Address.Holds (a : Address) (store : Store) (A : Automaton) : Prop where
  lt : a.index < store.size
  cell_eq : store.cell a = .of A
  wellFormed : A.WellFormed

variable {store later : Store} {a b : Address} {A B : Automaton}

theorem Address.Holds.keep (h : a.Holds store A) (hkeeps : Store.Keeps store later) :
    a.Holds later A :=
  ⟨h.lt.trans_le hkeeps.size_le, (hkeeps.cell_eq a h.lt).trans h.cell_eq, h.wellFormed⟩

/-- An automaton does not change when another cell does. -/
theorem Address.Holds.put_of_ne (h : b.Holds store B) (hne : a.index ≠ b.index) (A : Stored) :
    b.Holds (store.put a A) B :=
  ⟨by simpa using h.lt, (Store.cell_put_of_ne hne).trans h.cell_eq, h.wellFormed⟩

theorem Address.Holds.put_self (h : a.Holds store A) (hB : B.WellFormed) :
    a.Holds (store.put a (.of B)) B :=
  ⟨by simpa using h.lt, Store.cell_put_self h.lt, hB⟩

namespace Store

/-! ### The three steps -/

section Steps

variable {change : Stored.Action Unit} {fault : Automaton.Fault}

theorem read_bind_apply {α : Type} {next : Stored → Action α} :
    (read a >>= next) store = next (store.cell a) store := rfl

theorem edit_apply_of_ok {value : Unit} {C : Stored} (h : change (store.cell a) = .ok value C) :
    edit a change store = .ok value (store.put a C) := by
  rw [edit, h]

theorem edit_apply_of_error {C : Stored} (h : change (store.cell a) = .error fault C) :
    edit a change store = .error fault (store.put a C) := by
  rw [edit, h]

/-- A change in place that fails before it has changed anything leaves the store as it was. One that
    succeeds leaves a consistent automaton, if all were consistent. -/
theorem edit_cases (hchange : Maintains Stored.Consistent change fun _ => True)
    (hfails : ∀ {A B : Stored} {fault : Automaton.Fault}, change A = .error fault B → B = A)
    (store : Store) (a : Address) :
    (∃ A, edit a change store = .ok ⟨⟩ (store.put a A) ∧ (store.Sound → A.Consistent)) ∨
      ∃ fault, edit a change store = .error fault store := by
  cases hresult : change (store.cell a) with
  | ok value A =>
    refine Or.inl ⟨A, edit_apply_of_ok hresult, fun hsound => ?_⟩
    have hends := hchange _ (sound_iff.1 hsound a)
    rw [hresult] at hends
    cases hends with
    | ok hA => exact hA
  | error fault A =>
    -- What is put back into the cell is what was there.
    refine Or.inr ⟨fault, ?_⟩
    rw [edit_apply_of_error hresult, hfails hresult, put_cell]

/-- An automaton that is connected in its cell becomes the automaton with the checked edges. -/
theorem tracks_edit (h : a.Holds store A) {outcome : Except Automaton.Fault (List Edge)}
    (hchange : Maintains Stored.Consistent change fun _ => True)
    (hconnects : Stored.Connects A.size change outcome) :
    Tracks (fun _ after edges => (A.addEdges edges).WellFormed ∧
      after = store.put a (.of (A.addEdges edges))) outcome (edit a change store) := by
  have hends := hchange _ (Stored.consistent_of h.wellFormed)
  -- The cell holds the stored form of the value, for which it is known what the action does.
  rcases hconnects (.of A) rfl with ⟨edges, rfl, heq⟩ | ⟨fault, C, rfl, heq⟩
  · rw [heq, Stored.connectedAll_of] at hends
    rw [← h.cell_eq] at heq
    cases hends with
    | ok hafter =>
      rw [edit_apply_of_ok heq, h.cell_eq, Stored.connectedAll_of]
      exact .ok ⟨hafter.toWellFormed, rfl⟩
  · rw [← h.cell_eq] at heq
    rw [edit_apply_of_error heq]
    exact .error

/-- If a change makes all of its checks first, then changing an automaton in its cell either does
    what the change of the value does, or leaves the whole store as it was. -/
theorem edit_of_holds (h : a.Holds store A) {outcome : Except Automaton.Fault Automaton}
    (hchange : change (.of A) = settle outcome (.of A) Stored.of) :
    edit a change store = settle outcome store fun B => store.put a (.of B) := by
  rw [← h.cell_eq] at hchange
  rw [edit, hchange]
  cases outcome with
  | error fault => exact congrArg _ (put_cell store a)
  | ok B => rfl

theorem edit_connect (h : a.Holds store A) (source target : Int) (label : String) :
    edit a (Stored.connect source target label) store =
      settle (A.connect source target label) store fun B => store.put a (.of B) :=
  edit_of_holds h (Stored.connect_of A source target label)

theorem edit_setStarting (h : a.Holds store A) (s : Int) (value : Bool) :
    edit a (Stored.setStarting s value) store =
      settle (A.setStarting s value) store fun B => store.put a (.of B) :=
  edit_of_holds h (Stored.setStarting_of A s value)

theorem edit_setFinal (h : a.Holds store A) (s : Int) (value : Bool) :
    edit a (Stored.setFinal s value) store =
      settle (A.setFinal s value) store fun B => store.put a (.of B) :=
  edit_of_holds h (Stored.setFinal_of A s value)

/-- A new automaton is filled with the edges that pass the checks. -/
theorem tracks_fill {make : Action Address} {outcome : Except Automaton.Fault Automaton}
    {check : Automaton → Except Automaton.Fault (List Edge)}
    (hmake : Tracks Address.Holds outcome (make store))
    (hchange : Maintains Stored.Consistent change fun _ => True)
    (hconnects : ∀ A : Automaton, Stored.Connects A.size change (check A)) :
    Tracks Address.Holds (do let A ← outcome; let edges ← check A; return A.addEdges edges)
      ((do let a ← make; edit a change; return a : Action Address) store) := by
  refine hmake.bind fun a after A ha => ?_
  refine (tracks_edit ha hchange (hconnects A)).bind fun _ later edges hedges => ?_
  rcases hedges with ⟨hwell, rfl⟩
  exact tracks_pure (ha.put_self hwell)

/-- Edges are connected one after another if the automaton with them is well formed. -/
theorem edit_connectAll {edges : List Edge} (h : a.Holds store A)
    (hwell : (A.addEdges edges).WellFormed) :
    edit a (Stored.connectAll (edges.map Edge.triple)) store =
      .ok ⟨⟩ (store.put a (.of (A.addEdges edges))) := by
  have htracks := tracks_edit h (Stored.maintains_connectAll _)
    (Stored.connects_connectAll A.size (edges.map Edge.triple))
  rw [hwell.mapM_checkEdge] at htracks
  rcases htracks.exists_ok with ⟨_, after, hok, -, rfl⟩
  exact hok

end Steps

/-! ### Outside data -/

section Construction

theorem tracks_create (count : Int) (starting final : List Int) (store : Store) :
    Tracks Address.Holds (Automaton.create count starting final)
      (create count starting final store) := by
  by_cases hcount : count < 0
  · rw [Automaton.create, create, if_pos hcount, if_pos hcount]
    exact .error
  · have hcreate : create count starting final = (do
        let a ← allocate (.blank count.toNat)
        edit a (Stored.mark starting final)
        return a) := if_neg hcount
    rw [hcreate]
    -- The new cell is the last one, and the marks are set there.
    change Tracks Address.Holds _ ((edit ⟨store.size⟩ (Stored.mark starting final) >>= fun _ =>
      pure ⟨store.size⟩) (store.push (.blank count.toNat)))
    rcases Stored.mark_blank_cases (Int.not_lt.1 hcount) starting final with
      ⟨A, hA, hmark⟩ | ⟨fault, B, hfault, hmark⟩
    · rw [hA, bind_apply_of_ok (edit_apply_of_ok (by rw [cell_push_self]; exact hmark))]
      exact .ok ⟨by simp, cell_put_self (by simp), Automaton.wellFormed_create hA⟩
    · rw [hfault, bind_apply_of_error (edit_apply_of_error (by rw [cell_push_self]; exact hmark))]
      exact .error

theorem tracks_ofRelation (count : Int) (relation : List (Int × String × Int))
    (starting final : List Int) (store : Store) :
    Tracks Address.Holds (Automaton.ofRelation count relation starting final)
      (ofRelation count relation starting final store) := by
  rw [Automaton.ofRelation, Automaton.create_bind_edges]
  exact tracks_fill (tracks_create count starting final store)
    (Stored.maintains_connectAll relation) fun A => Stored.connects_connectAll A.size relation

theorem tracks_ofMatrix (rows : List (List (List String))) (starting final : List Int)
    (store : Store) :
    Tracks Address.Holds (Automaton.ofMatrix rows starting final)
      (ofMatrix rows starting final store) := by
  -- The constructor of values puts the edges in at once, the one here adds them to a blank
  -- automaton.
  have hofMatrix : Automaton.ofMatrix rows starting final = (do
      let A ← Automaton.create rows.length starting final
      let edges ← (do
        let edges ← rows.zipIdx.mapM fun row => Automaton.rowEdges A.size row.1 row.2
        return edges.flatten)
      return A.addEdges edges) := by
    rw [← Automaton.create_bind_edges]
    simp [Automaton.ofMatrix]
  rw [hofMatrix]
  exact tracks_fill (tracks_create _ starting final store) (Stored.maintains_connectMatrix rows)
    fun A => Stored.connects_connectMatrix A.size rows

theorem tracks_ofTable (alphabet : List String) (table : List (List (List Int)))
    (starting final : List Int) (store : Store) :
    Tracks Address.Holds (Automaton.ofTable alphabet table starting final)
      (ofTable alphabet table starting final store) := by
  -- The constructor of values creates and fills in one step, which are two steps here.
  have hofTable : Automaton.ofTable alphabet table starting final = (do
      let A ← Automaton.create table.length starting final
      let edges ← (do
        let edges ← table.zipIdx.mapM fun row =>
          Automaton.slotEdges A.size (alphabet ++ [""]) row.1 row.2
        return edges.flatten)
      return A.addEdges edges) := by
    rw [← Automaton.create_bind_edges]
    simp [Automaton.ofTable]
  rw [hofTable]
  exact tracks_fill (tracks_create _ starting final store) (Stored.maintains_connectTable _ table)
    fun A => Stored.connects_connectTable A.size _ table

end Construction

/-! ### Automata from one -/

section Single

theorem tracks_rebuild (hA : A.WellFormed) (store : Store) :
    Tracks Address.Holds (.ok A) (rebuild A store) := by
  rw [← hA.ofRelation_triples]
  exact tracks_ofRelation _ _ _ _ store

/-- A copy of an automaton is built, and it is equal to that. -/
theorem tracks_copy (h : a.Holds store A) : Tracks Address.Holds (.ok A) (copy a store) := by
  rw [copy, read_bind_apply, h.cell_eq]
  exact tracks_rebuild h.wellFormed store

theorem tracks_reverse (h : a.Holds store A) :
    Tracks Address.Holds (.ok A.reverse) (reverse a store) := by
  rw [reverse, read_bind_apply, h.cell_eq, ← h.wellFormed.ofRelation_flip]
  exact tracks_ofRelation _ _ _ _ store

theorem tracks_determinize (h : a.Holds store A) :
    Tracks Address.Holds (.ok A.determinize) (determinize a store) := by
  rw [determinize, read_bind_apply, h.cell_eq, ← h.wellFormed.ofTable_table]
  exact tracks_ofTable _ _ _ _ store

theorem tracks_minimize (h : a.Holds store A) :
    Tracks Address.Holds (.ok A.minimize) (minimize a store) :=
  (tracks_reverse h).bind fun _ _ _ hb => (tracks_determinize hb).bind fun _ _ _ hc =>
    (tracks_reverse hc).bind fun _ _ _ hd => tracks_determinize hd

/-- The ends of an automaton in a store are read off it. -/
theorem tracks_ends (h : a.Holds store A) :
    Tracks (fun span after ends => span = ends ∧ after = store ∧ A.ends = .ok ends) A.ends
      (ends a store) := by
  rw [ends, read_bind_apply, h.cell_eq, Stored.toAutomaton_of]
  cases A.ends with
  | ok span => exact .ok ⟨rfl, rfl, rfl⟩
  | error fault => exact .error

theorem ends_apply (h : a.Holds store A) {span : Ends} (hends : A.ends = .ok span) :
    ends a store = .ok span store := by
  have htracks := tracks_ends h
  rw [hends] at htracks
  rcases htracks.exists_ok with ⟨_, _, hok, rfl, rfl, -⟩
  exact hok

/-- A link between the ends is added to a copy. -/
theorem tracks_linked (h : a.Holds store A) {link : Ends → Edge}
    (hwell : ∀ ends, A.ends = .ok ends → (A.addEdge (link ends)).WellFormed) :
    Tracks Address.Holds (do let ends ← A.ends; return A.addEdge (link ends))
      (linked a link store) := by
  refine (tracks_ends h).bind fun span after ends hspan => ?_
  rcases hspan with ⟨rfl, rfl, hends⟩
  have hadded := hwell _ hends
  -- A copy of what is well-formed does not fail, so only the ends may be missing.
  rcases (tracks_copy h).exists_ok with ⟨b, after, hb, hholds⟩
  have hedit : edit b (Stored.connectAll [(link span).triple]) after =
      .ok ⟨⟩ (after.put b (.of (A.addEdge (link span)))) :=
    @edit_connectAll after b A [link span] hholds hadded
  rw [bind_apply_of_ok hb, bind_apply_of_ok hedit]
  exact .ok (hholds.put_self hadded)

theorem tracks_option (h : a.Holds store A) :
    Tracks Address.Holds A.option (option a store) :=
  tracks_linked h fun _ hends => h.wellFormed.addEpsilon (h.wellFormed.ends_lt hends).1
    (h.wellFormed.ends_lt hends).2

theorem tracks_iteration (h : a.Holds store A) :
    Tracks Address.Holds A.iteration (iteration a store) :=
  tracks_linked h fun _ hends => h.wellFormed.addEpsilon (h.wellFormed.ends_lt hends).2
    (h.wellFormed.ends_lt hends).1

end Single

/-! ### Automata from several -/

section Several

variable {members : List Address} {automata : List Automaton} {parts : List (Automaton × Ends)}

/-- Members are at their addresses, each with its ends. -/
def Placed (store : Store) (members : List Address) (parts : List (Automaton × Ends)) : Prop :=
  List.Forall₂ (fun a part => a.Holds store part.1 ∧ part.1.ends = .ok part.2) members parts

theorem Placed.located (h : Placed store members parts) : Splice.Located parts := by
  induction h with
  | nil => exact fun _ hpart => absurd hpart List.not_mem_nil
  | cons hfirst _ ih => exact List.forall_mem_cons.2 ⟨⟨hfirst.1.wellFormed, hfirst.2⟩, ih⟩

theorem Placed.lt (h : Placed store members parts) : ∀ b ∈ members, b.index < store.size := by
  induction h with
  | nil => exact List.forall_mem_nil _
  | cons hfirst _ ih => exact List.forall_mem_cons.2 ⟨hfirst.1.lt, ih⟩

/-- Members stay where they are if what happens leaves them alone. -/
theorem Placed.keep (h : Placed store members parts) (hkeep : ∀ b ∈ members, ∀ B : Automaton,
    b.Holds store B → b.Holds later B) : Placed later members parts := by
  induction h with
  | nil => exact .nil
  | cons hfirst _ ih =>
    rcases List.forall_mem_cons.1 hkeep with ⟨hb, hrest⟩
    exact .cons ⟨hb _ hfirst.1, hfirst.2⟩ (ih hrest)

/-- Asking all members for their ends succeeds if each of them has ends. -/
theorem tracks_mapM_ends (h : List.Forall₂ (fun a A => a.Holds store A) members automata) :
    Tracks (fun _ after parts => after = store ∧ Placed store members parts)
      (automata.mapM fun A => do return (A, ← A.ends)) (members.mapM ends store) := by
  induction h with
  | nil => exact .ok ⟨rfl, .nil⟩
  | @cons a A members automata ha _ ih =>
    rw [List.mapM_cons, List.mapM_cons, bind_assoc]
    refine (tracks_ends ha).bind fun _ _ span hspan => ?_
    rcases hspan with ⟨rfl, rfl, hends⟩
    -- Asking for ends leaves the store as it is.
    refine ih.bind fun _ _ parts hparts => ?_
    rcases hparts with ⟨rfl, hparts⟩
    exact .ok ⟨rfl, .cons ⟨ha, hends⟩ hparts⟩

/-- The copies come one after another, so the last of them ends where all states are counted. -/
theorem foldl_size (offset : Nat) (parts : List (Automaton × Ends)) :
    (parts.map fun part => part.1.size).foldl (· + ·) offset =
      (Splice.ofParts offset parts).size := by
  induction parts generalizing offset with
  | nil => rfl
  | cons part parts ih => exact ih (offset + part.1.size)

theorem mapM_size (h : Placed store members parts) :
    (members.mapM fun a => do return (← read a).size) store =
      .ok (parts.map fun part => part.1.size) store := by
  induction h with
  | nil => rfl
  | @cons a part members parts ha _ ih =>
    have hread : (do return (← read a).size : Action Nat) store = .ok part.1.size store := by
      rw [read_bind_apply, ha.1.cell_eq]
      rfl
    rw [List.mapM_cons, bind_apply_of_ok hread, bind_apply_of_ok ih]
    rfl

/-- Copies of the members are added to an automaton in another cell. -/
theorem copyInto_apply {offset : Nat} (h : a.Holds store A) (hparts : Placed store members parts)
    (hne : ∀ b ∈ members, a.index ≠ b.index)
    (hwell : (A.addEdges (Splice.ofParts offset parts).edges).WellFormed) :
    copyInto a offset members store = .ok (Splice.ofParts offset parts).spans
      (store.put a (.of (A.addEdges (Splice.ofParts offset parts).edges))) := by
  induction members generalizing store A offset parts with
  | nil =>
    cases hparts
    change EStateM.Result.ok [] store = .ok [] (store.put a (.of A))
    rw [← h.cell_eq, put_cell]
  | cons b members ih =>
    cases hparts with
    | @cons _ part _ parts hb hrest =>
      rcases List.forall_mem_cons.1 hne with ⟨hab, hmembers⟩
      let copies := part.1.edges.toList.map (Edge.shift offset)
      have hcopies : (A.addEdges copies).WellFormed := hwell.of_append
      let after := store.put a (.of (A.addEdges copies))
      have hedit : edit a (Stored.connectAll (part.1.edges.toList.map fun e =>
          (e.shift offset).triple)) store = .ok ⟨⟩ after := by
        rw [← edit_connectAll h hcopies, List.map_map]
        rfl
      have hends : ends b after = .ok part.2 after := ends_apply (hb.1.put_of_ne hab _) hb.2
      -- The members that follow are where they were, since another cell has been filled.
      have hrest : Placed after members parts :=
        Placed.keep hrest fun c hc C hC => hC.put_of_ne (hmembers c hc) _
      have hall : (A.addEdges (Splice.ofParts offset (part :: parts)).edges) =
          (A.addEdges copies).addEdges (Splice.ofParts (offset + part.1.size) parts).edges :=
        Automaton.addEdges_append A copies _
      rw [hall] at hwell ⊢
      have hparts := ih (h.put_self hcopies) hrest hmembers hwell
      rw [put_put] at hparts
      rw [copyInto, read_bind_apply, hb.1.cell_eq, Stored.toAutomaton_of, bind_apply_of_ok hedit,
        bind_apply_of_ok hends, bind_apply_of_ok hparts]
      rfl

/-- The automaton with an entry and an exit and with the copies between them. -/
theorem addEdges_eq_enclose (s : Splice) :
    Automaton.addEdges ⟨s.size + 1, .ofList [0], .ofList [s.size], ∅⟩ s.edges = s.enclose [] := by
  rw [Automaton.addEdges_of_edges_eq_empty rfl, Splice.enclose, List.append_nil]

theorem addEdges_enclose (s : Splice) (links : List Edge) :
    (s.enclose []).addEdges links = s.enclose links := by
  rw [← addEdges_eq_enclose, ← Automaton.addEdges_append, Automaton.addEdges_of_edges_eq_empty rfl,
    Splice.enclose]

/-- The members are copied into a new automaton, between its entry and its exit. -/
theorem tracks_splice (h : List.Forall₂ (fun a A => a.Holds store A) members automata) :
    Tracks (fun result after s => result.1.Holds after (s.enclose []) ∧ result.2 = s.spans ∧
        ∃ parts, Splice.Located parts ∧ s = Splice.ofParts 1 parts)
      (Splice.ofMembers automata) (splice members store) := by
  refine (tracks_mapM_ends h).bind fun _ before parts hparts => ?_
  rcases hparts with ⟨rfl, hparts⟩
  let exit := (Splice.ofParts 1 parts).size
  have hcreated : Automaton.create (exit + 1 : Nat) [0] [(exit : Int)] =
      .ok ⟨exit + 1, .ofList [0], .ofList [exit], ∅⟩ :=
    @Automaton.create_eq_ok (exit + 1) [0] [exit] (by simp) (by simp)
  have hcreate := (tracks_create (exit + 1 : Nat) [0] [(exit : Int)] before).maintaining
    (maintains_create _ _ _) (Keeps.refl before)
  rw [hcreated] at hcreate
  rcases hcreate.exists_ok with ⟨result, after, hok, hresult, hkeeps, hsince⟩
  have hplaced : Placed after members parts := hparts.keep fun b _ B hB => hB.keep hkeeps
  -- The new cell comes after those of the members.
  have hne : ∀ b ∈ members, result.index ≠ b.index :=
    fun b hb => Nat.ne_of_gt ((hparts.lt b hb).trans_le hsince)
  have hwell := Splice.wellFormed_enclose hparts.located (List.forall_mem_nil _)
  rw [← addEdges_eq_enclose] at hwell
  have hcopies := copyInto_apply hresult hplaced hne hwell
  rw [bind_apply_of_ok (mapM_size hparts), foldl_size, bind_apply_of_ok hok,
    bind_apply_of_ok hcopies]
  refine .ok ⟨?_, rfl, parts, hparts.located, rfl⟩
  rw [← addEdges_eq_enclose]
  exact hresult.put_self hwell

/-- The copies are linked with each other, and with the entry and the exit. -/
theorem tracks_enclose (h : List.Forall₂ (fun a A => a.Holds store A) members automata)
    {links : Nat → List Ends → List Edge}
    (hlinks : ∀ parts, Splice.Located parts → ∀ e ∈ links (Splice.ofParts 1 parts).size
      (Splice.ofParts 1 parts).spans, Splice.Link 1 (Splice.ofParts 1 parts).size 0 e) :
    Tracks Address.Holds
      (do let s ← Splice.ofMembers automata; return s.enclose (links s.size s.spans))
      ((do
        let (result, spans) ← splice members
        let exit := (← read result).size - 1
        edit result (Stored.connectAll ((links exit spans).map Edge.triple))
        return result : Action Address) store) := by
  refine (tracks_splice h).bind fun result after s hs => ?_
  obtain ⟨result, spans⟩ := result
  rcases hs with ⟨hresult, rfl, parts, hparts, rfl⟩
  -- The links keep to the ends of the copies, so all edges pass their checks.
  have hwell := Splice.wellFormed_enclose hparts (hlinks parts hparts)
  rw [← addEdges_enclose] at hwell ⊢
  have hedit := edit_connectAll hresult hwell
  dsimp only
  rw [read_bind_apply, hresult.cell_eq]
  change Tracks Address.Holds _ ((edit result (Stored.connectAll
    ((links (Splice.ofParts 1 parts).size (Splice.ofParts 1 parts).spans).map Edge.triple)) >>=
      fun _ => pure result) after)
  rw [bind_apply_of_ok hedit]
  exact .ok (hresult.put_self hwell)

theorem tracks_concatenation (h : List.Forall₂ (fun a A => a.Holds store A) members automata) :
    Tracks Address.Holds (Automaton.concatenation automata) (concatenation members store) :=
  @tracks_enclose _ _ _ h (fun exit spans => Splice.chain exit 0 spans)
    fun _ hparts _ he => Splice.link_of_mem_row hparts (le_refl _) he

theorem tracks_disjunction (h : List.Forall₂ (fun a A => a.Holds store A) members automata) :
    Tracks Address.Holds (Automaton.disjunction automata) (disjunction members store) :=
  @tracks_enclose _ _ _ h Splice.fan
    fun _ hparts _ he => Splice.link_of_mem_side hparts (le_refl _) he

end Several

end Store

end FiniteState
