import FiniteState.Automaton.Stored
import FiniteState.Proofs.Actions
import FiniteState.Proofs.Consistency

/-!
# Recorded Alphabets

A stored automaton has its alphabet beside its edges, where nothing but the changes themselves keeps
the two together. Each of the three changes makes all of its checks first. So one that fails leaves
the automaton as it was, and one that succeeds does to edges and alphabet what a history does that
records symbols. Consistency is therefore a property that survives every change, and every sequence
of changes, also one that is broken off by a failure in the middle.

Of an automaton without edges and marks, a sequence of changes makes the automaton that the
constructor of values makes of the same data, and it reports the same fault. For edges this is read
off the way in which data is gone through: the action connects the edges that the check yields, in
the same order.

## Main definitions

* `Stored.of`: The stored automaton with nothing recorded but the symbols on the edges.
* `Stored.Consistent`: States exist, labels are symbols, and the recorded alphabet is that of the
  edges.
* `Stored.connected`, `Stored.connectedAll`: What connecting edges changes.
* `Stored.Connects`: An action connects the edges that a check yields.

## Theorems

* `Stored.Consistent.accepts_eq_true_iff`: A consistent automaton accepts its language.
* `Stored.connect_apply`, `Stored.setStarting_apply`, `Stored.setFinal_apply`: The three changes are
  made after all checks.
* `Stored.eq_of_connect_eq_error`, `Stored.eq_of_setStarting_eq_error`,
  `Stored.eq_of_setFinal_eq_error`: A change that fails changes nothing.
* `Stored.connect_of`, `Stored.setStarting_of`, `Stored.setFinal_of`: They do what the changes of
  values do.
* `Stored.maintains_connect` and so on: Consistency survives.
* `Stored.connects_connectAll`, `Stored.connects_connectMatrix`, `Stored.connects_connectTable`:
  Which edges are connected.
-/

namespace FiniteState

namespace Automaton

/-- The automaton with more edges. -/
def addEdges (A : Automaton) (edges : List Edge) : Automaton :=
  { A with edges := edges.foldl (fun known e => known.insert e) A.edges }

theorem mem_edges_addEdges {A : Automaton} {edges : List Edge} {e : Edge} :
    e ∈ (A.addEdges edges).edges ↔ e ∈ edges ∨ e ∈ A.edges := by
  induction edges generalizing A with
  | nil => simp [addEdges]
  | cons f edges ih =>
    change e ∈ ((A.addEdge f).addEdges edges).edges ↔ _
    rw [ih, mem_edges_addEdge, List.mem_cons]
    tauto

/-- If there are no edges yet, the added ones are all. -/
theorem addEdges_of_edges_eq_empty {A : Automaton} (h : A.edges = ∅) (edges : List Edge) :
    A.addEdges edges = { A with edges := .ofList edges } := by
  refine ext_edges rfl rfl rfl fun e => ?_
  rw [mem_edges_addEdges, Edge.mem_ofList, h]
  simp

end Automaton

namespace Stored

open Automaton

variable {A B : Stored}

/-- The stored automaton for which the symbols on its edges have been recorded. -/
def of (A : Automaton) : Stored :=
  ⟨A, A.alphabet⟩

@[simp] theorem toAutomaton_of (A : Automaton) : (of A).toAutomaton = A := rfl

/-- A stored automaton mentions only states that it has, its labels are symbols and epsilon, and
    what has been recorded, along its history, is the set of the symbols on its edges. -/
structure Consistent (A : Stored) : Prop extends A.toAutomaton.WellFormed where
  mem_alphabet_iff : ∀ c, c ∈ A.alphabet ↔ ∃ e ∈ A.edges, e.label = some c
  recorded : A.toAutomaton.Recorded A.alphabet

/-- What is recorded along a history leaves only the states and labels to be looked at. -/
theorem consistent_of_recorded (hwell : A.toAutomaton.WellFormed)
    (hrecorded : A.toAutomaton.Recorded A.alphabet) : A.Consistent where
  toWellFormed := hwell
  mem_alphabet_iff c := by
    rw [hrecorded.eq_alphabet]
    exact mem_alphabet
  recorded := hrecorded

theorem consistent_of {A : Automaton} (h : A.WellFormed) : (of A).Consistent :=
  consistent_of_recorded h (recorded_alphabet A)

/-- A consistent stored automaton is determined by its automaton. -/
theorem Consistent.eq_of (h : A.Consistent) : A = of A.toAutomaton := by
  obtain ⟨B, alphabet⟩ := A
  rw [of, ← h.recorded.eq_alphabet]

theorem accepts_of (A : Automaton) (word : List Char) : (of A).accepts word = A.accepts word := rfl

/-- A word is looked up in what has been recorded, which makes no difference if that is the alphabet
    of the edges. -/
theorem Consistent.accepts_eq_true_iff (h : A.Consistent) {word : List Char} :
    A.accepts word = true ↔ word ∈ A.toAutomaton.language := by
  rw [h.eq_of, accepts_of]
  exact Automaton.accepts_eq_true_iff h.toWellFormed

/-- An edge from 0 to 1 whose symbol has not been recorded. -/
def unrecordedEdge : Stored :=
  ⟨⟨2, .ofList [0], .ofList [1], Std.ExtTreeSet.ofList ([⟨0, 1, some 'a'⟩] : List Edge)⟩, ∅⟩

example : unrecordedEdge.accepts ['a'] = false ∧
    unrecordedEdge.toAutomaton.accepts ['a'] = true := by decide +kernel

theorem consistent_blank (size : Nat) : (blank size).Consistent :=
  consistent_of_recorded ⟨by simp [blank], by simp [blank], by simp [blank], by simp [blank],
    by simp [blank]⟩ (.blank size ∅ ∅)

/-! ### The three changes -/

section Changes

variable {s source target : Int} {label : String} {value : Bool}

/-- The stored automaton with one more edge, whose symbol is recorded. -/
def connected (A : Stored) (e : Edge) : Stored :=
  ⟨A.toAutomaton.addEdge e, e.label.elim A.alphabet A.alphabet.insert⟩

theorem of_addEdge (A : Automaton) (e : Edge) : of (A.addEdge e) = (of A).connected e := by
  rw [of, connected, alphabet_addEdge]
  rfl

theorem checked_bind_apply {α β : Type} {check : Except Fault α} {next : α → Action β} :
    (checked check >>= next) A = match check with
      | .ok value => next value A
      | .error fault => .error fault A := by
  cases check <;> rfl

theorem state_bind_apply {β : Type} {next : Nat → Action β} :
    (state s >>= next) A = match checkState A.size s with
      | .ok t => next t A
      | .error fault => .error fault A := by
  change (checked (checkState A.size s) >>= next) A = _
  cases checkState A.size s <;> rfl

/-- An edge is checked before anything is changed, and then it is added and its symbol recorded. -/
theorem connect_apply (source target : Int) (label : String) (A : Stored) :
    connect source target label A =
      settle (checkEdge A.size source label target) A A.connected := by
  rw [connect, state_bind_apply, checkEdge]
  -- The three checks stand in the same order on both sides, and each of them ends both if it fails.
  cases checkState A.size source with
  | error fault => rfl
  | ok s =>
    dsimp only
    rw [state_bind_apply]
    cases checkState A.size target with
    | error fault => rfl
    | ok t =>
      dsimp only
      rw [checked_bind_apply]
      cases checkLabel label <;> rfl

theorem setStarting_apply (s : Int) (value : Bool) (A : Stored) :
    setStarting s value A = settle (checkState A.size s) A fun t =>
      { A with starting := if value then A.starting.insert t else A.starting.erase t } := by
  rw [setStarting, state_bind_apply]
  cases checkState A.size s <;> rfl

theorem setFinal_apply (s : Int) (value : Bool) (A : Stored) :
    setFinal s value A = settle (checkState A.size s) A fun t =>
      { A with final := if value then A.final.insert t else A.final.erase t } := by
  rw [setFinal, state_bind_apply]
  cases checkState A.size s <;> rfl

/-- What is settled with a fault has changed nothing. -/
theorem eq_of_settle_eq_error {ε σ α : Type} {check : Except ε α} {before after : σ}
    {change : α → σ} {fault : ε} (h : settle check before change = .error fault after) :
    after = before := by
  cases check with
  | ok value => exact nomatch h
  | error other =>
    cases h
    rfl

theorem eq_of_connect_eq_error {fault : Fault}
    (h : connect source target label A = .error fault B) : B = A := by
  rw [connect_apply] at h
  exact eq_of_settle_eq_error h

theorem eq_of_setStarting_eq_error {fault : Fault}
    (h : setStarting s value A = .error fault B) : B = A := by
  rw [setStarting_apply] at h
  exact eq_of_settle_eq_error h

theorem eq_of_setFinal_eq_error {fault : Fault}
    (h : setFinal s value A = .error fault B) : B = A := by
  rw [setFinal_apply] at h
  exact eq_of_settle_eq_error h

/-- Connecting does to stored automata what it does to automata. -/
theorem connect_of (A : Automaton) (source target : Int) (label : String) :
    connect source target label (of A) = settle (A.connect source target label) (of A) of := by
  rw [connect_apply, Automaton.connect]
  change settle (checkEdge A.size source label target) _ _ = _
  cases checkEdge A.size source label target with
  | error fault => rfl
  | ok e => exact congrArg (EStateM.Result.ok PUnit.unit) (of_addEdge A e).symm

theorem setStarting_of (A : Automaton) (s : Int) (value : Bool) :
    setStarting s value (of A) = settle (A.setStarting s value) (of A) of := by
  rw [setStarting_apply, Automaton.setStarting]
  change settle (checkState A.size s) _ _ = _
  cases checkState A.size s <;> rfl

theorem setFinal_of (A : Automaton) (s : Int) (value : Bool) :
    setFinal s value (of A) = settle (A.setFinal s value) (of A) of := by
  rw [setFinal_apply, Automaton.setFinal]
  change settle (checkState A.size s) _ _ = _
  cases checkState A.size s <;> rfl

end Changes

/-! ### Consistency survives -/

section Maintained

/-- A checked edge makes the history of an automaton one step longer. -/
theorem Consistent.connected (h : A.Consistent) {e : Edge} (he : Checked A.size e) :
    (A.connected e).Consistent :=
  consistent_of_recorded (h.toWellFormed.addEdge he.lt.1 he.lt.2 he.isSymbol)
    (h.recorded.connect e)

theorem maintains_connect (source target : Int) (label : String) :
    Maintains Consistent (connect source target label) fun _ => True :=
  maintains_of_settle (connect_apply source target label) fun _ _ h he =>
    h.connected ⟨source, target, label, he⟩

/-- Marking states records nothing. -/
theorem maintains_setStarting (s : Int) (value : Bool) :
    Maintains Consistent (setStarting s value) fun _ => True :=
  maintains_of_settle (setStarting_apply s value) fun A _ h ht =>
    consistent_of_recorded
      ⟨fun _ hmem => lt_of_mem_marked h.starting_lt (checkState_eq_ok_iff.1 ht).2 hmem,
        h.final_lt, h.source_lt, h.target_lt, h.isSymbol_of_label⟩
      (h.recorded.mark _ A.final)

theorem maintains_setFinal (s : Int) (value : Bool) :
    Maintains Consistent (setFinal s value) fun _ => True :=
  maintains_of_settle (setFinal_apply s value) fun A _ h ht =>
    consistent_of_recorded
      ⟨h.starting_lt,
        fun _ hmem => lt_of_mem_marked h.final_lt (checkState_eq_ok_iff.1 ht).2 hmem,
        h.source_lt, h.target_lt, h.isSymbol_of_label⟩
      (h.recorded.mark A.starting _)

theorem maintains_mark (starting final : List Int) :
    Maintains Consistent (mark starting final) fun _ => True :=
  (maintains_forM fun s _ => maintains_setStarting s true).bind fun _ _ =>
    maintains_forM fun s _ => maintains_setFinal s true

theorem maintains_connectAll (relation : List (Int × String × Int)) :
    Maintains Consistent (connectAll relation) fun _ => True :=
  maintains_forM fun _ _ => maintains_connect _ _ _

theorem maintains_connectRow (row : List (List String)) (source : Nat) :
    Maintains Consistent (connectRow row source) fun _ => True := by
  unfold connectRow
  refine maintains_get.bind fun B _ => maintains_guard ?_
  exact maintains_forM fun _ _ => maintains_forM fun _ _ => maintains_connect _ _ _

theorem maintains_connectMatrix (rows : List (List (List String))) :
    Maintains Consistent (connectMatrix rows) fun _ => True :=
  maintains_forM fun row _ => maintains_connectRow row.1 row.2

theorem maintains_connectSlots (slots : List String) (row : List (List Int)) (source : Nat) :
    Maintains Consistent (connectSlots slots row source) fun _ => True := by
  unfold connectSlots
  refine maintains_guard ?_
  exact maintains_forM fun _ _ => maintains_forM fun _ _ => maintains_connect _ _ _

theorem maintains_connectTable (slots : List String) (table : List (List (List Int))) :
    Maintains Consistent (connectTable slots table) fun _ => True :=
  maintains_forM fun row _ => maintains_connectSlots slots row.1 row.2

end Maintained

/-! ### Which edges are connected -/

section Connects

variable {size : Nat} {action other : Action Unit} {edges : List Edge}
  {outcome next : Except Fault (List Edge)}

/-- The stored automaton with more edges, whose symbols are recorded. -/
def connectedAll (A : Stored) (edges : List Edge) : Stored :=
  edges.foldl connected A

/-- An action on automata with `size` states connects the edges that a check yields. If the check
    fails, so does the action, with the same fault. -/
def Connects (size : Nat) (action : Action Unit) (outcome : Except Fault (List Edge)) : Prop :=
  ∀ A : Stored, A.size = size →
    (∃ edges, outcome = .ok edges ∧ action A = .ok ⟨⟩ (A.connectedAll edges)) ∨
      ∃ fault B, outcome = .error fault ∧ action A = .error fault B

theorem size_connectedAll (A : Stored) (edges : List Edge) :
    (A.connectedAll edges).size = A.size := by
  induction edges generalizing A with
  | nil => rfl
  | cons e edges ih => exact ih (A.connected e)

theorem connectedAll_of (A : Automaton) (edges : List Edge) :
    (of A).connectedAll edges = of (A.addEdges edges) := by
  induction edges generalizing A with
  | nil => rfl
  | cons e edges ih =>
    change ((of A).connected e).connectedAll edges = _
    rw [← of_addEdge, ih]
    rfl

theorem connects_connect (size : Nat) (source target : Int) (label : String) :
    Connects size (connect source target label)
      ((checkEdge size source label target).map ([·])) := by
  rintro A rfl
  rw [connect_apply source target label A]
  cases checkEdge A.size source label target with
  | ok e => exact Or.inl ⟨[e], rfl, rfl⟩
  | error fault => exact Or.inr ⟨fault, A, rfl, rfl⟩

theorem connects_nil : Connects size (pure ⟨⟩) (.ok []) :=
  fun _ _ => Or.inl ⟨[], rfl, rfl⟩

/-- One action after the other connects the edges of both. -/
theorem Connects.append (h : Connects size action outcome) (hother : Connects size other next) :
    Connects size (action >>= fun _ => other) (do return (← outcome) ++ (← next)) := by
  intro A hA
  rcases h A hA with ⟨edges, rfl, haction⟩ | ⟨fault, B, rfl, haction⟩
  · rw [bind_apply_of_ok haction]
    -- The checks look at the size, which edges do not change.
    rcases hother (A.connectedAll edges) ((size_connectedAll A edges).trans hA) with
      ⟨more, rfl, hmore⟩ | ⟨fault, B, rfl, hmore⟩
    · refine Or.inl ⟨edges ++ more, rfl, ?_⟩
      rw [hmore, connectedAll, connectedAll, connectedAll, List.foldl_append]
    · exact Or.inr ⟨fault, B, rfl, hmore⟩
  · exact Or.inr ⟨fault, B, rfl, bind_apply_of_error haction⟩

/-- An action for every member of a list connects the edges of all members, one after another. -/
theorem connects_forM {α : Type} {items : List α} {f : α → Action Unit}
    {check : α → Except Fault (List Edge)}
    (h : ∀ item ∈ items, Connects size (f item) (check item)) :
    Connects size (items.forM f) (do return (← items.mapM check).flatten) := by
  induction items with
  | nil => exact connects_nil
  | cons item items ih =>
    rcases List.forall_mem_cons.1 h with ⟨hitem, hitems⟩
    -- The first member comes before the others, on both sides.
    have hboth := hitem.append (ih hitems)
    rw [List.mapM_cons]
    rw [List.forM]
    simpa using hboth

/-- If there is an edge for every member of a list, these are connected. -/
theorem connects_forM_connect {α : Type} (size : Nat) (items : List α) (source target : α → Int)
    (label : α → String) :
    Connects size (items.forM fun item => connect (source item) (target item) (label item))
      (items.mapM fun item => checkEdge size (source item) (label item) (target item)) := by
  induction items with
  | nil => exact connects_nil
  | cons item items ih =>
    have hboth := (connects_connect size (source item) (target item) (label item)).append ih
    rw [List.mapM_cons, List.forM]
    -- One edge in front of the others, or the fault of the first.
    cases hcheck : checkEdge size (source item) (label item) (target item) <;>
      rw [hcheck] at hboth <;> exact hboth

/-- A check that may fail in front of an action stands in front of the other checks too. -/
theorem connects_guard {condition : Prop} [Decidable condition] {fault : Fault}
    {action : PUnit → Action Unit} {outcome : PUnit → Except Fault (List Edge)}
    (h : Connects size (action ⟨⟩) (outcome ⟨⟩)) :
    Connects size (if condition then throw fault >>= action else action ⟨⟩)
      (if condition then throw fault >>= outcome else outcome ⟨⟩) := by
  by_cases hcondition : condition
  · rw [if_pos hcondition, if_pos hcondition]
    exact fun A _ => Or.inr ⟨fault, A, rfl, rfl⟩
  · rw [if_neg hcondition, if_neg hcondition]
    exact h

theorem connects_connectAll (size : Nat) (relation : List (Int × String × Int)) :
    Connects size (connectAll relation)
      (relation.mapM fun (source, label, target) => checkEdge size source label target) :=
  connects_forM_connect size relation Prod.fst (fun triple => triple.2.2) fun triple => triple.2.1

theorem connects_connectRow (size : Nat) (row : List (List String)) (source : Nat) :
    Connects size (connectRow row source) (rowEdges size row source) := by
  rintro A rfl
  -- The number of states that a row is held against is read from the automaton.
  have hrow : Connects A.size (do
      if row.length ≠ A.size then
        throw (.rowLength source row.length A.size)
      row.zipIdx.forM fun entry => entry.1.forM fun label => connect source entry.2 label)
      (rowEdges A.size row source) := by
    unfold rowEdges
    refine connects_guard (connects_forM fun entry _ => ?_)
    exact connects_forM_connect A.size entry.1 (fun _ => source) (fun _ => entry.2) id
  exact hrow A rfl

theorem connects_connectMatrix (size : Nat) (rows : List (List (List String))) :
    Connects size (connectMatrix rows) (do
      let edges ← rows.zipIdx.mapM fun (row, source) => rowEdges size row source
      return edges.flatten) :=
  connects_forM fun row _ => connects_connectRow size row.1 row.2

theorem connects_connectSlots (size : Nat) (slots : List String) (row : List (List Int))
    (source : Nat) :
    Connects size (connectSlots slots row source) (slotEdges size slots row source) := by
  unfold connectSlots slotEdges
  refine connects_guard (connects_forM fun slot _ => ?_)
  exact connects_forM_connect size slot.2 (fun _ => source) id fun _ => slot.1

theorem connects_connectTable (size : Nat) (slots : List String) (table : List (List (List Int))) :
    Connects size (connectTable slots table) (do
      let edges ← table.zipIdx.mapM fun (row, source) => slotEdges size slots row source
      return edges.flatten) :=
  connects_forM fun row _ => connects_connectSlots size slots row.1 row.2

end Connects

/-! ### Which states are marked -/

section Marks

/-- Marks are set one after another if every state passes the check. -/
theorem forM_settle_cases {f : Int → Action Unit} {put : Stored → Nat → Stored}
    (hf : ∀ s A, f s A = settle (checkState A.size s) A (put A))
    (hsize : ∀ (A : Stored) t, (put A t).size = A.size) (states : List Int) (A : Stored) :
    (∃ found, states.mapM (checkState A.size) = .ok found ∧
      states.forM f A = .ok ⟨⟩ (found.foldl put A)) ∨
    ∃ fault B, states.mapM (checkState A.size) = .error fault ∧
      states.forM f A = .error fault B := by
  induction states generalizing A with
  | nil => exact Or.inl ⟨[], rfl, rfl⟩
  | cons s states ih =>
    have hfirst := hf s A
    rw [List.mapM_cons, List.forM]
    cases hcheck : checkState A.size s with
    | error fault =>
      rw [hcheck] at hfirst
      exact Or.inr ⟨fault, A, rfl, bind_apply_of_error hfirst⟩
    | ok t =>
      rw [hcheck] at hfirst
      rw [bind_apply_of_ok hfirst]
      -- The number of states is the same for the marks that follow.
      rcases hsize A t ▸ ih (put A t) with ⟨found, hfound, hrest⟩ | ⟨fault, B, hfault, hrest⟩
      · exact Or.inl ⟨t :: found, by rw [hfound]; rfl, hrest⟩
      · exact Or.inr ⟨fault, B, by rw [hfault]; rfl, hrest⟩

theorem forM_setStarting_cases (states : List Int) (A : Stored) :
    (∃ found, states.mapM (checkState A.size) = .ok found ∧
      states.forM (setStarting · true) A =
        .ok ⟨⟩ { A with starting := found.foldl StateSet.insert A.starting }) ∨
    ∃ fault B, states.mapM (checkState A.size) = .error fault ∧
      states.forM (setStarting · true) A = .error fault B := by
  have hfold : ∀ found : List Nat,
      found.foldl (fun (A : Stored) t => { A with starting := A.starting.insert t }) A =
        { A with starting := found.foldl StateSet.insert A.starting } :=
    fun _ => List.foldl_hom (fun starting => { A with starting := starting }) fun _ _ => rfl
  have hcases := forM_settle_cases (fun s A => setStarting_apply s true A) (fun _ _ => rfl) states A
  simp only [if_true, hfold] at hcases
  exact hcases

theorem forM_setFinal_cases (states : List Int) (A : Stored) :
    (∃ found, states.mapM (checkState A.size) = .ok found ∧
      states.forM (setFinal · true) A =
        .ok ⟨⟩ { A with final := found.foldl StateSet.insert A.final }) ∨
    ∃ fault B, states.mapM (checkState A.size) = .error fault ∧
      states.forM (setFinal · true) A = .error fault B := by
  have hfold : ∀ found : List Nat,
      found.foldl (fun (A : Stored) t => { A with final := A.final.insert t }) A =
        { A with final := found.foldl StateSet.insert A.final } :=
    fun _ => List.foldl_hom (fun final => { A with final := final }) fun _ _ => rfl
  have hcases := forM_settle_cases (fun s A => setFinal_apply s true A) (fun _ _ => rfl) states A
  simp only [if_true, hfold] at hcases
  exact hcases

/-- Marking the states of a blank automaton makes what is created with these marks. -/
theorem mark_blank_cases {count : Int} (hcount : 0 ≤ count) (starting final : List Int) :
    (∃ A, create count starting final = .ok A ∧
      mark starting final (blank count.toNat) = .ok ⟨⟩ (of A)) ∨
    ∃ fault B, create count starting final = .error fault ∧
      mark starting final (blank count.toNat) = .error fault B := by
  have hcreate : create count starting final = (do
      let starting ← starting.mapM (checkState count.toNat)
      let final ← final.mapM (checkState count.toNat)
      return ⟨count.toNat, .ofList starting, .ofList final, ∅⟩) :=
    if_neg (Int.not_lt.2 hcount)
  rw [hcreate]
  -- The final states are marked on what marking the starting states has left, whose size is the
  -- same.
  rcases forM_setStarting_cases starting (blank count.toNat) with
    ⟨found, hfound, hstarting⟩ | ⟨fault, B, hfault, hstarting⟩
  · rw [show starting.mapM (checkState count.toNat) = .ok found from hfound, mark,
      bind_apply_of_ok hstarting]
    rcases forM_setFinal_cases final { blank count.toNat with starting := .ofList found } with
      ⟨more, hmore, hfinal⟩ | ⟨fault, B, hfault, hfinal⟩
    · rw [show final.mapM (checkState count.toNat) = .ok more from hmore]
      exact Or.inl ⟨_, rfl, hfinal⟩
    · rw [show final.mapM (checkState count.toNat) = .error fault from hfault]
      exact Or.inr ⟨fault, B, rfl, hfinal⟩
  · rw [show starting.mapM (checkState count.toNat) = .error fault from hfault]
    exact Or.inr ⟨fault, B, rfl, bind_apply_of_error hstarting⟩

end Marks

end Stored

end FiniteState
