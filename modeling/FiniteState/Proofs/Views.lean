import FiniteState.Proofs.Consistency
import FiniteState.Proofs.Faults

/-!
# Automata from Their Views

There are four ways to hand in the edges of an automaton: as triples, as a square matrix of labels,
as a table of destinations, or one call after another. They agree wherever they are handed the same
edges, and with them the automaton is fixed. Neither the order of the edges matters, nor how often
one comes, nor how the calls that add edges and the calls that mark states are mixed.

Matrices and tables are lists of triples in another shape. If the shape is right, reading one is
reading its triples from left to right and from top to bottom, so the outcome is the same down to
the fault that is reported (`ofMatrix_eq`, `ofTable_eq`). Calls come in any order, so for them there
is an induction along the calls: an automaton has after a call what it had before and what the call
names.

What is left is a question about triples alone. An automaton has exactly the size, the triples and
the marks that it was given, and it is the only one that has (`Shows.unique`). Rebuilding an
automaton from what can be seen of it is the case where these are its own.

## Main definitions

* `Automaton.relation`, `Automaton.texts`: The edges as triples and as a matrix, labels as texts.
* `Automaton.Shows`: What an automaton was given is what it has.
* `Automaton.Fits`: Parts of an automaton that are as demanded.
* `Automaton.Lists`, `Automaton.Tabulates`: A matrix and a table with certain edges.
* `Automaton.matrixOf`, `Automaton.tableOf`: The matrix and the table of triples.
* `Automaton.Call`, `Automaton.performAll`, `Automaton.Cover`: Calls, and what they name.
* `Automaton.Given`: An automaton that all constructors make of the same parts.

## Theorems

* `Automaton.Shows.unique`: There is only one automaton with given parts.
* `Automaton.ofMatrix_eq`, `Automaton.ofTable_eq`: Matrices and tables are triples in another shape.
* `Automaton.Fits.lists`, `Automaton.Fits.tabulates`, `Automaton.WellFormed.lists_texts`: Triples
  have a matrix and tables, and the matrix of an automaton has its triples.
* `Automaton.Shows.perform`, `Automaton.Shows.performAll`: What one call does, and what calls come
  to.
* `Automaton.exists_given`: The constructors agree.
* `Automaton.constructors_agree`: They agree, they rebuild automata from their views, and they
  report the first item that is not as demanded.
-/

namespace FiniteState

namespace Automaton

/-- The edges as triples. -/
def relation (A : Automaton) : List (Int × String × Int) :=
  (A.shifted 0).map fun (source, label, target) => (source, String.ofList label.toList, target)

/-- The matrix of labels, as texts. -/
def texts (A : Automaton) : List (List (List String)) :=
  A.matrix.map fun row => row.map fun labels => labels.map fun label => String.ofList label.toList

/-- An automaton has these parts and no others. -/
structure Shows (A : Automaton) (size : Nat) (relation : List (Int × String × Int))
    (starting final : List Int) : Prop where
  size_eq : A.size = size
  mem_relation : ∀ triple, triple ∈ A.relation ↔ triple ∈ relation
  mem_starting : ∀ s, s ∈ A.starting.numbers ↔ s ∈ starting
  mem_final : ∀ s, s ∈ A.final.numbers ↔ s ∈ final

/-- States to mark and triples that are as demanded, where there are `size` states. -/
structure Fits (size : Nat) (relation : List (Int × String × Int)) (starting final : List Int) :
    Prop where
  starting_met : ∀ s ∈ starting, (Demand.state s).Met size
  final_met : ∀ s ∈ final, (Demand.state s).Met size
  relation_met : ∀ triple ∈ relation,
    ∀ d ∈ edgeDemands triple.1 triple.2.1 triple.2.2, d.Met size

/-- A matrix of labels lists triples: it is square, and a label stands in the entry of two states if
    there is a triple of these. How often and in which order it stands there is left open. -/
structure Lists (size : Nat) (relation : List (Int × String × Int))
    (rows : List (List (List String))) : Prop where
  length_eq : rows.length = size
  length_row : ∀ row ∈ rows, row.length = size
  mem_iff : ∀ (s t : Nat) (label : String),
    (∃ row ∈ rows[s]?, ∃ labels ∈ row[t]?, label ∈ labels) ↔
      ((s : Int), label, (t : Int)) ∈ relation

/-- A table of destinations lists triples over an alphabet: it has a slot for every member of the
    alphabet and a last one for epsilon, and a triple is in one of the slots with its label. If a
    symbol is repeated in the alphabet, its edges may be split over the slots. -/
structure Tabulates (size : Nat) (relation : List (Int × String × Int)) (alphabet : List String)
    (table : List (List (List Int))) : Prop where
  length_eq : table.length = size
  length_row : ∀ row ∈ table, row.length = (alphabet ++ [""]).length
  mem_iff : ∀ (s : Nat) (label : String) (target : Int),
    (∃ row ∈ table[s]?, ∃ i : Nat, (alphabet ++ [""])[i]? = some label ∧
      ∃ targets ∈ row[i]?, target ∈ targets) ↔ ((s : Int), label, target) ∈ relation

/-- A change to an automaton that adds something. -/
inductive Call
  | connect (source : Int) (label : String) (target : Int)
  | setStarting (state : Int)
  | setFinal (state : Int)

/-- Carry out a call. -/
def Call.perform (A : Automaton) : Call → Except Fault Automaton
  | connect source label target => A.connect source target label
  | setStarting state => A.setStarting state true
  | setFinal state => A.setFinal state true

/-- Carry out calls one after another. -/
def performAll (A : Automaton) (calls : List Call) : Except Fault Automaton :=
  calls.foldlM Call.perform A

/-- Calls name these triples and these states to mark, in any order and each of them at least
    once. -/
structure Cover (calls : List Call) (relation : List (Int × String × Int))
    (starting final : List Int) : Prop where
  connect_iff : ∀ source label target,
    .connect source label target ∈ calls ↔ (source, label, target) ∈ relation
  setStarting_iff : ∀ s, .setStarting s ∈ calls ↔ s ∈ starting
  setFinal_iff : ∀ s, .setFinal s ∈ calls ↔ s ∈ final

/-- An automaton is what every constructor makes of the same parts. -/
structure Given (A : Automaton) (size : Nat) (relation : List (Int × String × Int))
    (starting final : List Int) : Prop where
  shows : A.Shows size relation starting final
  /-- The order and the number of times in which triples and marks are listed do not matter. -/
  ofRelation_eq : ∀ relation' starting' final', (∀ triple, triple ∈ relation' ↔ triple ∈ relation) →
    (∀ s, s ∈ starting' ↔ s ∈ starting) → (∀ s, s ∈ final' ↔ s ∈ final) →
      ofRelation size relation' starting' final' = .ok A
  ofMatrix_eq : ∀ rows, Lists size relation rows → ofMatrix rows starting final = .ok A
  ofTable_eq : ∀ alphabet table, Tabulates size relation alphabet table →
    ofTable alphabet table starting final = .ok A
  performAll_eq : ∀ calls, Cover calls relation starting final →
    (create size [] [] >>= fun B => B.performAll calls) = .ok A
  exists_lists : ∃ rows, Lists size relation rows
  exists_tabulates : ∀ alphabet, (∀ triple ∈ relation, triple.2.1 = "" ∨ triple.2.1 ∈ alphabet) →
    ∃ table, Tabulates size relation alphabet table

theorem mem_numbers {states : StateSet} {s : Int} :
    s ∈ states.numbers ↔ ∃ t ∈ states, (t : Int) = s := by
  simp [StateSet.numbers]

theorem natCast_mem_numbers {states : StateSet} {s : Nat} :
    (s : Int) ∈ states.numbers ↔ s ∈ states := by
  simp [mem_numbers]

theorem triple_injective : Function.Injective Edge.triple := by
  intro e f h
  obtain ⟨s, t, l⟩ := e
  obtain ⟨s', t', l'⟩ := f
  simp only [Edge.triple, Prod.mk.injEq, Int.natCast_inj, String.ofList_inj] at h
  rcases h with ⟨rfl, hlabel, rfl⟩
  cases l <;> cases l' <;> simp_all

section Shows

variable {A B : Automaton} {size : Nat} {relation relation' : List (Int × String × Int)}
  {starting starting' final final' : List Int} {triple : Int × String × Int}

theorem mem_relation : triple ∈ A.relation ↔ ∃ e ∈ A.edges, e.triple = triple := by
  simp [Automaton.relation, shifted, Edge.triple]

theorem triple_mem_relation {e : Edge} : e.triple ∈ A.relation ↔ e ∈ A.edges := by
  rw [mem_relation]
  constructor
  · rintro ⟨f, hf, htriple⟩
    rwa [← triple_injective htriple]
  · intro he
    exact ⟨e, he, rfl⟩

/-- Order and repetitions do not matter. -/
theorem Shows.congr (h : A.Shows size relation starting final)
    (hrelation : ∀ triple, triple ∈ relation' ↔ triple ∈ relation)
    (hstarting : ∀ s, s ∈ starting' ↔ s ∈ starting) (hfinal : ∀ s, s ∈ final' ↔ s ∈ final) :
    A.Shows size relation' starting' final' where
  size_eq := h.size_eq
  mem_relation triple := (h.mem_relation triple).trans (hrelation triple).symm
  mem_starting s := (h.mem_starting s).trans (hstarting s).symm
  mem_final s := (h.mem_final s).trans (hfinal s).symm

/-- There is only one automaton with given parts. -/
theorem Shows.unique (hA : A.Shows size relation starting final)
    (hB : B.Shows size relation starting final) : A = B := by
  refine ext_edges (hA.size_eq.trans hB.size_eq.symm) (StateSet.ext_mem fun s => ?_)
    (StateSet.ext_mem fun s => ?_) fun e => ?_
  · rw [← natCast_mem_numbers, ← natCast_mem_numbers, hA.mem_starting, hB.mem_starting]
  · rw [← natCast_mem_numbers, ← natCast_mem_numbers, hA.mem_final, hB.mem_final]
  · rw [← triple_mem_relation, ← triple_mem_relation, hA.mem_relation, hB.mem_relation]

theorem shows_self (A : Automaton) :
    A.Shows A.size A.relation A.starting.numbers A.final.numbers :=
  ⟨rfl, fun _ => Iff.rfl, fun _ => Iff.rfl, fun _ => Iff.rfl⟩

theorem fits_iff :
    Fits size relation starting final ↔
      ∀ d ∈ marksDemands size starting final ++ relationDemands relation, d.Met size := by
  simp only [marksDemands, relationDemands, List.cons_append, List.forall_mem_cons,
    List.forall_mem_append, List.forall_mem_flatMap, List.not_mem_nil, false_implies, implies_true,
    and_true]
  constructor
  · intro h
    exact ⟨Int.natCast_nonneg size, ⟨h.starting_met, h.final_met⟩, h.relation_met⟩
  · rintro ⟨-, ⟨hstarting, hfinal⟩, hrelation⟩
    exact ⟨hstarting, hfinal, hrelation⟩

theorem Fits.congr (h : Fits size relation starting final)
    (hrelation : ∀ triple, triple ∈ relation' ↔ triple ∈ relation)
    (hstarting : ∀ s, s ∈ starting' ↔ s ∈ starting) (hfinal : ∀ s, s ∈ final' ↔ s ∈ final) :
    Fits size relation' starting' final' where
  starting_met s hs := h.starting_met s ((hstarting s).1 hs)
  final_met s hs := h.final_met s ((hfinal s).1 hs)
  relation_met triple ht := h.relation_met triple ((hrelation triple).1 ht)

end Shows

/-! ### Triples -/

section Triples

variable {A : Automaton} {size : Nat} {relation : List (Int × String × Int)}
  {starting final : List Int}

/-- The states that pass the check are those that were handed in. -/
theorem mem_numbers_of_mapM {states : List Int} {found : List Nat}
    (h : states.mapM (checkState size) = .ok found) (s : Int) :
    s ∈ (StateSet.ofList found).numbers ↔ s ∈ states := by
  simp only [mem_numbers, StateSet.mem_ofList, mem_mapM_iff h, checkState_eq_ok_iff]
  constructor
  · rintro ⟨t, ⟨state, hstate, hcast, -⟩, hs⟩
    rwa [← hs, hcast]
  · intro hs
    rcases exists_mapM_iff.1 ⟨found, h⟩ s hs with ⟨t, ht⟩
    have hcheck := checkState_eq_ok_iff.1 ht
    exact ⟨t, ⟨s, hs, hcheck⟩, hcheck.1⟩

/-- An edge that passes the check is the triple that was handed in. -/
theorem triple_of_checkEdge {source target : Int} {label : String} {e : Edge}
    (h : checkEdge size source label target = .ok e) : e.triple = (source, label, target) := by
  rcases checkEdge_eq_ok_iff.1 h with ⟨hsource, htarget, hlabel⟩
  have htext : label.toList = e.label.toList := (checkLabel_eq_ok_iff.1 hlabel).1
  rw [Edge.triple, (checkState_eq_ok_iff.1 hsource).1, (checkState_eq_ok_iff.1 htarget).1, ← htext,
    String.ofList_toList]

theorem shows_of_create (h : create size starting final = .ok A) :
    A.Shows size [] starting final := by
  rcases create_eq_ok_iff.1 h with ⟨-, starting', final', hstarting, hfinal, rfl⟩
  refine ⟨Int.toNat_natCast size, fun triple => ?_, mem_numbers_of_mapM hstarting,
    mem_numbers_of_mapM hfinal⟩
  simp [mem_relation]

theorem shows_of_ofRelation (h : ofRelation size relation starting final = .ok A) :
    A.Shows size relation starting final := by
  rcases bind_eq_ok_iff.1 h with ⟨B, hB, hrest⟩
  rcases bind_eq_ok_iff.1 hrest with ⟨edges, hedges, hA⟩
  cases hA
  have hshows := shows_of_create hB
  refine ⟨hshows.size_eq, fun triple => ?_, hshows.mem_starting, hshows.mem_final⟩
  simp only [mem_relation, Edge.mem_ofList, mem_mapM_iff hedges]
  constructor
  · rintro ⟨e, ⟨other, hother, hcheck⟩, rfl⟩
    rwa [triple_of_checkEdge hcheck]
  · intro ht
    -- No triple has been skipped, as the list was gone through to its end.
    rcases exists_mapM_iff.1 ⟨edges, hedges⟩ triple ht with ⟨e, he⟩
    exact ⟨e, ⟨triple, ht, he⟩, triple_of_checkEdge he⟩

theorem exists_ofRelation (h : Fits size relation starting final) :
    ∃ A, ofRelation size relation starting final = .ok A :=
  (checks_ofRelation size relation starting final).exists_ok_iff.2 (fits_iff.1 h)

theorem Shows.fits (hA : A.WellFormed) (h : A.Shows size relation starting final) :
    Fits size relation starting final := by
  -- What an automaton shows are states of it, since it is well-formed.
  have hstates : ∀ (states : StateSet), (∀ s ∈ states, s < A.size) →
      ∀ s ∈ states.numbers, (Demand.state s).Met size := by
    intro states hlt s hs
    rcases mem_numbers.1 hs with ⟨t, ht, rfl⟩
    rw [← h.size_eq]
    exact ⟨Int.natCast_nonneg t, Int.ofNat_lt.2 (hlt t ht)⟩
  refine ⟨fun s hs => hstates _ hA.starting_lt s ((h.mem_starting s).2 hs),
    fun s hs => hstates _ hA.final_lt s ((h.mem_final s).2 hs), fun triple ht => ?_⟩
  rcases Automaton.mem_relation.1 ((h.mem_relation triple).2 ht) with ⟨e, he, rfl⟩
  have hcheck := checkEdge_eq_ok (hA.source_lt e he) (hA.target_lt e he)
    (hA.isSymbol_of_label e he)
  rw [← h.size_eq]
  exact (checks_checkEdge _ _ _ _).exists_ok_iff.1 ⟨e, hcheck⟩

end Triples

/-! ### Matrices and tables -/

/-- The triples of a matrix, from left to right and from top to bottom. -/
def matrixTriples (rows : List (List (List String))) : List (Int × String × Int) :=
  rows.zipIdx.flatMap fun (row, source) => row.zipIdx.flatMap fun (labels, target) =>
    labels.map fun label => (source, label, target)

/-- The triples of a table, from left to right and from top to bottom. -/
def tableTriples (alphabet : List String) (table : List (List (List Int))) :
    List (Int × String × Int) :=
  table.zipIdx.flatMap fun (row, source) => ((alphabet ++ [""]).zip row).flatMap
    fun (label, targets) => targets.map fun target => (source, label, target)

/-- The labels of the triples between two states. -/
def labelsBetween (relation : List (Int × String × Int)) (source target : Int) : List String :=
  (relation.filter fun triple => triple.1 = source ∧ triple.2.2 = target).map fun triple =>
    triple.2.1

/-- The matrix of triples. -/
def matrixOf (size : Nat) (relation : List (Int × String × Int)) : List (List (List String)) :=
  (List.range size).map fun s : Nat => (List.range size).map fun t : Nat =>
    labelsBetween relation s t

/-- The targets of the triples with a source and a label. -/
def targetsOn (relation : List (Int × String × Int)) (source : Int) (label : String) : List Int :=
  (relation.filter fun triple => triple.1 = source ∧ triple.2.1 = label).map fun triple =>
    triple.2.2

/-- The table of triples over an alphabet. -/
def tableOf (size : Nat) (relation : List (Int × String × Int)) (alphabet : List String) :
    List (List (List Int)) :=
  (List.range size).map fun s : Nat => (alphabet ++ [""]).map fun label =>
    targetsOn relation s label

/-- Going through lists one after another is going through the members of all of them. -/
theorem mapM_flatMap {α β γ ε : Type} {f : β → Except ε γ} {parts : α → List β}
    {step : α → Except ε (List γ)} {items : List α}
    (h : ∀ item ∈ items, step item = (parts item).mapM f) :
    (items.flatMap parts).mapM f = items.mapM step >>= fun found => .ok found.flatten := by
  induction items with
  | nil => rfl
  | cons item items ih =>
    rcases List.forall_mem_cons.1 h with ⟨hitem, hrest⟩
    rw [List.flatMap_cons, List.mapM_append, ih hrest, List.mapM_cons, hitem]
    cases (parts item).mapM f with
    | error error => rfl
    | ok first => cases items.mapM step <;> rfl

section Shapes

variable {size : Nat} {relation : List (Int × String × Int)} {starting final : List Int}
  {alphabet : List String} {rows : List (List (List String))} {table : List (List (List Int))}

theorem rowEdges_eq {row : List (List String)} {source : Nat} (hrow : row.length = size) :
    rowEdges size row source = (row.zipIdx.flatMap fun (labels, target) =>
      labels.map fun label => ((source : Int), label, (target : Int))).mapM
        fun triple => checkEdge size triple.1 triple.2.1 triple.2.2 := by
  rw [rowEdges, if_neg (not_not.2 hrow)]
  refine (mapM_flatMap fun cell _ => ?_).symm
  rw [List.mapM_map]
  rfl

theorem slotEdges_eq {slots : List String} {row : List (List Int)} {source : Nat}
    (hrow : row.length = slots.length) :
    slotEdges size slots row source = ((slots.zip row).flatMap fun (label, targets) =>
      targets.map fun target => ((source : Int), label, target)).mapM
        fun triple => checkEdge size triple.1 triple.2.1 triple.2.2 := by
  rw [slotEdges, if_neg (not_not.2 hrow)]
  refine (mapM_flatMap fun slot _ => ?_).symm
  rw [List.mapM_map]
  rfl

/-- A square matrix is its triples in another shape. -/
theorem ofMatrix_eq (hrows : ∀ row ∈ rows, row.length = rows.length) :
    ofMatrix rows starting final =
      ofRelation rows.length (matrixTriples rows) starting final := by
  unfold ofMatrix ofRelation matrixTriples
  cases hcreate : create rows.length starting final with
  | error fault => rfl
  | ok A =>
    have hsize : A.size = rows.length := size_of_create hcreate
    have hrow : ∀ entry ∈ rows.zipIdx, rowEdges A.size entry.1 entry.2 = _ := fun entry hentry =>
      rowEdges_eq ((hrows entry.1 (List.fst_mem_of_mem_zipIdx hentry)).trans hsize.symm)
    simp only [bind, Except.bind]
    rw [mapM_flatMap hrow]
    cases rows.zipIdx.mapM fun entry => rowEdges A.size entry.1 entry.2 <;> rfl

/-- A table whose rows have the right length is its triples in another shape. -/
theorem ofTable_eq (htable : ∀ row ∈ table, row.length = (alphabet ++ [""]).length) :
    ofTable alphabet table starting final =
      ofRelation table.length (tableTriples alphabet table) starting final := by
  unfold ofTable ofRelation tableTriples
  cases create table.length starting final with
  | error fault => rfl
  | ok A =>
    have hrow : ∀ entry ∈ table.zipIdx,
        slotEdges A.size (alphabet ++ [""]) entry.1 entry.2 = _ := fun entry hentry =>
      slotEdges_eq (htable entry.1 (List.fst_mem_of_mem_zipIdx hentry))
    simp only [bind, Except.bind]
    rw [mapM_flatMap hrow]
    cases table.zipIdx.mapM fun entry => slotEdges A.size (alphabet ++ [""]) entry.1 entry.2 <;> rfl

theorem mem_matrixTriples {triple : Int × String × Int} :
    triple ∈ matrixTriples rows ↔ ∃ (s t : Nat) (label : String), triple = (↑s, label, ↑t) ∧
      ∃ row ∈ rows[s]?, ∃ labels ∈ row[t]?, label ∈ labels := by
  simp only [matrixTriples, List.mem_flatMap, List.mem_map, List.mem_zipIdx_iff_getElem?,
    Option.mem_def]
  constructor
  · rintro ⟨⟨row, s⟩, hrow, ⟨labels, t⟩, hlabels, label, hlabel, rfl⟩
    exact ⟨s, t, label, rfl, row, hrow, labels, hlabels, hlabel⟩
  · rintro ⟨s, t, label, rfl, row, hrow, labels, hlabels, hlabel⟩
    exact ⟨(row, s), hrow, (labels, t), hlabels, label, hlabel, rfl⟩

theorem mem_tableTriples {triple : Int × String × Int} :
    triple ∈ tableTriples alphabet table ↔ ∃ (s : Nat) (label : String) (target : Int),
      triple = (↑s, label, target) ∧ ∃ row ∈ table[s]?, ∃ i : Nat,
        (alphabet ++ [""])[i]? = some label ∧ ∃ targets ∈ row[i]?, target ∈ targets := by
  simp only [tableTriples, List.mem_flatMap, List.mem_map, List.mem_zipIdx_iff_getElem?,
    Option.mem_def]
  constructor
  · rintro ⟨⟨row, s⟩, hrow, ⟨label, targets⟩, hslot, target, htarget, rfl⟩
    rcases List.mem_iff_getElem?.1 hslot with ⟨i, hi⟩
    rcases List.getElem?_zip_eq_some.1 hi with ⟨hlabel, htargets⟩
    exact ⟨s, label, target, rfl, row, hrow, i, hlabel, targets, htargets, htarget⟩
  · rintro ⟨s, label, target, rfl, row, hrow, i, hlabel, targets, htargets, htarget⟩
    have hslot : (label, targets) ∈ (alphabet ++ [""]).zip row :=
      List.mem_iff_getElem?.2 ⟨i, List.getElem?_zip_eq_some.2 ⟨hlabel, htargets⟩⟩
    exact ⟨(row, s), hrow, (label, targets), hslot, target, htarget, rfl⟩

/-- Triples that are as demanded are between states that a matrix has entries for. -/
theorem Fits.exists_states (h : Fits size relation starting final) {triple : Int × String × Int}
    (ht : triple ∈ relation) :
    ∃ s t : Nat, (s < size ∧ t < size) ∧ triple = ((s : Int), triple.2.1, (t : Int)) := by
  obtain ⟨source, label, target⟩ := triple
  have hmet := h.relation_met _ ht
  have hsource : 0 ≤ source ∧ source < size := hmet _ List.mem_cons_self
  have htarget : 0 ≤ target ∧ target < size :=
    hmet _ (List.mem_cons_of_mem _ List.mem_cons_self)
  refine ⟨source.toNat, target.toNat, by omega, ?_⟩
  rw [Int.toNat_of_nonneg hsource.1, Int.toNat_of_nonneg htarget.1]

theorem Lists.mem_matrixTriples_iff (hfits : Fits size relation starting final)
    (h : Lists size relation rows) (triple : Int × String × Int) :
    triple ∈ matrixTriples rows ↔ triple ∈ relation := by
  rw [mem_matrixTriples]
  constructor
  · rintro ⟨s, t, label, rfl, hentry⟩
    exact (h.mem_iff s t label).1 hentry
  · intro ht
    rcases hfits.exists_states ht with ⟨s, t, -, htriple⟩
    rw [htriple] at ht
    exact ⟨s, t, triple.2.1, htriple, (h.mem_iff s t _).2 ht⟩

theorem Tabulates.mem_tableTriples_iff (hfits : Fits size relation starting final)
    (h : Tabulates size relation alphabet table) (triple : Int × String × Int) :
    triple ∈ tableTriples alphabet table ↔ triple ∈ relation := by
  rw [mem_tableTriples]
  constructor
  · rintro ⟨s, label, target, rfl, hslot⟩
    exact (h.mem_iff s label target).1 hslot
  · intro ht
    rcases hfits.exists_states ht with ⟨s, t, -, htriple⟩
    rw [htriple] at ht
    exact ⟨s, triple.2.1, t, htriple, (h.mem_iff s _ _).2 ht⟩

theorem mem_getElem?_map_range {α : Type} {n i : Nat} {f : Nat → α} {x : α} :
    x ∈ ((List.range n).map f)[i]? ↔ i < n ∧ f i = x := by
  simp [List.getElem?_eq_some_iff]

theorem mem_labelsBetween {source target : Int} {label : String} :
    label ∈ labelsBetween relation source target ↔ (source, label, target) ∈ relation := by
  simp only [labelsBetween, List.mem_map, List.mem_filter, decide_eq_true_eq]
  constructor
  · rintro ⟨triple, ⟨ht, rfl, rfl⟩, rfl⟩
    exact ht
  · intro ht
    exact ⟨_, ⟨ht, rfl, rfl⟩, rfl⟩

theorem mem_targetsOn {source target : Int} {label : String} :
    target ∈ targetsOn relation source label ↔ (source, label, target) ∈ relation := by
  simp only [targetsOn, List.mem_map, List.mem_filter, decide_eq_true_eq]
  constructor
  · rintro ⟨triple, ⟨ht, rfl, rfl⟩, rfl⟩
    exact ht
  · intro ht
    exact ⟨_, ⟨ht, rfl, rfl⟩, rfl⟩

/-- Triples between states that exist are listed by their matrix. -/
theorem Fits.lists (h : Fits size relation starting final) :
    Lists size relation (matrixOf size relation) := by
  refine ⟨by simp [matrixOf], by simp [matrixOf], fun s t label => ?_⟩
  simp only [matrixOf, mem_getElem?_map_range]
  constructor
  · rintro ⟨_, ⟨-, rfl⟩, hrow⟩
    simp only [mem_getElem?_map_range] at hrow
    rcases hrow with ⟨_, ⟨-, rfl⟩, hlabel⟩
    exact mem_labelsBetween.1 hlabel
  · intro ht
    -- A triple is in the matrix if its states are rows and columns, which fitting says.
    rcases h.exists_states ht with ⟨s', t', hlt, htriple⟩
    simp only [Prod.mk.injEq, Int.natCast_inj, true_and] at htriple
    rcases htriple with ⟨rfl, rfl⟩
    exact ⟨_, ⟨hlt.1, rfl⟩, _, mem_getElem?_map_range.2 ⟨hlt.2, rfl⟩, mem_labelsBetween.2 ht⟩

/-- Triples between states that exist are listed by their table over every alphabet that has their
    symbols. -/
theorem Fits.tabulates (h : Fits size relation starting final)
    (halphabet : ∀ triple ∈ relation, triple.2.1 = "" ∨ triple.2.1 ∈ alphabet) :
    Tabulates size relation alphabet (tableOf size relation alphabet) := by
  refine ⟨by simp [tableOf], by simp [tableOf], fun s label target => ?_⟩
  simp only [tableOf, mem_getElem?_map_range]
  constructor
  · rintro ⟨_, ⟨-, rfl⟩, i, hlabel, targets, hslot, htarget⟩
    rw [Option.mem_def, List.getElem?_map, hlabel] at hslot
    cases hslot
    exact mem_targetsOn.1 htarget
  · intro ht
    rcases h.exists_states ht with ⟨s', t', ⟨hs, -⟩, htriple⟩
    simp only [Prod.mk.injEq, Int.natCast_inj, true_and] at htriple
    rcases htriple with ⟨rfl, rfl⟩
    -- The label has a slot: the last one if it is epsilon, else that of the symbol.
    have hslot : label ∈ alphabet ++ [""] := by
      have hused := halphabet _ ht
      simp only [List.mem_append, List.mem_singleton]
      tauto
    rcases List.mem_iff_getElem?.1 hslot with ⟨i, hi⟩
    refine ⟨_, ⟨hs, rfl⟩, i, hi, ?_⟩
    rw [List.getElem?_map, hi]
    exact ⟨_, rfl, mem_targetsOn.2 ht⟩

/-- The matrix of an automaton lists its triples. -/
theorem WellFormed.lists_texts {A : Automaton} (hA : A.WellFormed) :
    Lists A.size A.relation A.texts := by
  refine ⟨by simp [texts, matrix], by simp [texts, matrix], fun s t label => ?_⟩
  -- An entry is found in bounds only, and all edges are in bounds.
  have hentry : (∃ row ∈ A.texts[s]?, ∃ labels ∈ row[t]?, label ∈ labels) ↔
      (s < A.size ∧ t < A.size) ∧ ∃ l ∈ A.labels s t, String.ofList l.toList = label := by
    simp only [texts, matrix, labels, List.map_map, mem_getElem?_map_range, Function.comp_def]
    constructor
    · rintro ⟨_, ⟨hs, rfl⟩, hrow⟩
      simp only [mem_getElem?_map_range] at hrow
      rcases hrow with ⟨_, ⟨ht, rfl⟩, hlabel⟩
      exact ⟨⟨hs, ht⟩, by simpa using hlabel⟩
    · rintro ⟨⟨hs, ht⟩, hlabel⟩
      exact ⟨_, ⟨hs, rfl⟩, _, mem_getElem?_map_range.2 ⟨ht, rfl⟩, by simpa using hlabel⟩
  rw [hentry, mem_relation]
  simp only [mem_labels]
  constructor
  · rintro ⟨-, l, hl, rfl⟩
    exact ⟨_, hl, rfl⟩
  · rintro ⟨⟨s', t', l⟩, he, htriple⟩
    simp only [Edge.triple, Prod.mk.injEq, Int.natCast_inj] at htriple
    rcases htriple with ⟨rfl, rfl, rfl⟩
    exact ⟨⟨hA.source_lt _ he, hA.target_lt _ he⟩, l, he, rfl⟩

end Shapes

/-! ### Calls -/

section Calls

variable {A B : Automaton} {size : Nat} {relation : List (Int × String × Int)}
  {starting final : List Int} {call : Call} {calls : List Call}

/-- The demands of a call. -/
def Call.demands : Call → List Demand
  | connect source label target => edgeDemands source label target
  | setStarting state => [.state state]
  | setFinal state => [.state state]

/-- The triple that a call names. -/
def Call.triples : Call → List (Int × String × Int)
  | connect source label target => [(source, label, target)]
  | _ => []

/-- The starting state that a call names. -/
def Call.starts : Call → List Int
  | setStarting state => [state]
  | _ => []

/-- The final state that a call names. -/
def Call.finals : Call → List Int
  | setFinal state => [state]
  | _ => []

/-- What only one call names is named by calls if that one is among them. -/
theorem mem_flatMap_iff_mem {α : Type} {parts : Call → List α} {x : α} {named : Call}
    (hnamed : x ∈ parts named) (hunique : ∀ call, x ∈ parts call → call = named) :
    x ∈ calls.flatMap parts ↔ named ∈ calls := by
  rw [List.mem_flatMap]
  constructor
  · rintro ⟨call, hcall, hx⟩
    rwa [← hunique call hx]
  · intro hcall
    exact ⟨named, hcall, hnamed⟩

theorem mem_triples {triple : Int × String × Int} :
    triple ∈ calls.flatMap Call.triples ↔ .connect triple.1 triple.2.1 triple.2.2 ∈ calls := by
  refine mem_flatMap_iff_mem (List.mem_singleton_self _) fun call h => ?_
  cases call <;> simp_all [Call.triples]

theorem mem_starts {s : Int} : s ∈ calls.flatMap Call.starts ↔ .setStarting s ∈ calls := by
  refine mem_flatMap_iff_mem (List.mem_singleton_self _) fun call h => ?_
  cases call <;> simp_all [Call.starts]

theorem mem_finals {s : Int} : s ∈ calls.flatMap Call.finals ↔ .setFinal s ∈ calls := by
  refine mem_flatMap_iff_mem (List.mem_singleton_self _) fun call h => ?_
  cases call <;> simp_all [Call.finals]

theorem checks_perform (A : Automaton) (call : Call) :
    Checks A.size call.demands (call.perform A) := by
  cases call with
  | connect source label target => exact (checks_checkEdge _ _ _ _).map fun _ => ⟨_, rfl⟩
  | setStarting state => exact (checks_checkState _ _).map fun _ => ⟨_, rfl⟩
  | setFinal state => exact (checks_checkState _ _).map fun _ => ⟨_, rfl⟩

theorem mem_numbers_insert {states : StateSet} {t : Nat} {s state : Int} (h : (t : Int) = state) :
    s ∈ (states.insert t).numbers ↔ s = state ∨ s ∈ states.numbers := by
  subst h
  simp only [mem_numbers, StateSet.mem_insert]
  aesop

/-- After a call an automaton has what it had before and what the call names. -/
theorem Shows.perform (h : A.Shows size relation starting final)
    (hcall : call.perform A = .ok B) :
    B.Shows size (call.triples ++ relation) (call.starts ++ starting) (call.finals ++ final) := by
  cases call with
  | connect source label target =>
    rcases bind_eq_ok_iff.1 hcall with ⟨e, he, hB⟩
    cases hB
    refine ⟨h.size_eq, fun triple => ?_, h.mem_starting, h.mem_final⟩
    -- One more edge is one more triple, whether it was there before or not.
    simp only [Call.triples, List.singleton_append, List.mem_cons, ← h.mem_relation,
      Automaton.mem_relation, mem_edges_addEdge, ← triple_of_checkEdge he]
    aesop
  | setStarting state =>
    rcases bind_eq_ok_iff.1 hcall with ⟨t, ht, hB⟩
    cases hB
    refine ⟨h.size_eq, h.mem_relation, fun s => ?_, h.mem_final⟩
    simp only [Call.starts, List.singleton_append, List.mem_cons, ← h.mem_starting]
    exact mem_numbers_insert (checkState_eq_ok_iff.1 ht).1
  | setFinal state =>
    rcases bind_eq_ok_iff.1 hcall with ⟨t, ht, hB⟩
    cases hB
    refine ⟨h.size_eq, h.mem_relation, h.mem_starting, fun s => ?_⟩
    simp only [Call.finals, List.singleton_append, List.mem_cons, ← h.mem_final]
    exact mem_numbers_insert (checkState_eq_ok_iff.1 ht).1

/-- Calls are looked at in order, and none of them changes the number of states. -/
theorem checks_performAll (A : Automaton) (calls : List Call) :
    Checks A.size (calls.flatMap Call.demands) (A.performAll calls) := by
  induction calls generalizing A with
  | nil => exact checks_ok A
  | cons call calls ih =>
    rw [List.flatMap_cons, performAll, List.foldlM_cons]
    refine (checks_perform A call).bind fun B hB => ?_
    rw [← ((shows_self A).perform hB).size_eq]
    exact ih B

/-- After calls an automaton has what it had before and what the calls name. -/
theorem Shows.performAll (h : A.Shows size relation starting final)
    (hcalls : A.performAll calls = .ok B) :
    B.Shows size (calls.flatMap Call.triples ++ relation) (calls.flatMap Call.starts ++ starting)
      (calls.flatMap Call.finals ++ final) := by
  induction calls generalizing A relation starting final with
  | nil =>
    cases hcalls
    exact h
  | cons call calls ih =>
    rw [Automaton.performAll, List.foldlM_cons] at hcalls
    rcases bind_eq_ok_iff.1 hcalls with ⟨C, hC, hrest⟩
    refine (ih (h.perform hC) hrest).congr (fun triple => ?_) (fun s => ?_) fun s => ?_
    all_goals
      simp only [List.flatMap_cons, List.mem_append]
      tauto

end Calls

/-! ### Agreement -/

section Agreement

variable {A : Automaton} {size : Nat} {relation : List (Int × String × Int)}
  {starting final : List Int} {calls : List Call}

/-- Calls that name only what is as demanded make an automaton that has what they name. -/
theorem Cover.exists_performAll (hfits : Fits size relation starting final)
    (h : Cover calls relation starting final) :
    ∃ A, (create size [] [] >>= fun B => B.performAll calls) = .ok A ∧
      A.Shows size relation starting final := by
  have hdemands : ∀ d ∈ calls.flatMap Call.demands, d.Met size := by
    refine List.forall_mem_flatMap.2 fun call hcall => ?_
    cases call with
    | connect source label target =>
      exact hfits.relation_met _ ((h.connect_iff source label target).1 hcall)
    | setStarting s =>
      exact List.forall_mem_singleton.2 (hfits.starting_met s ((h.setStarting_iff s).1 hcall))
    | setFinal s =>
      exact List.forall_mem_singleton.2 (hfits.final_met s ((h.setFinal_iff s).1 hcall))
  have hmarks : ∀ d ∈ marksDemands size [] [], d.Met size := by
    simp [marksDemands, Demand.Met]
  rcases (checks_create size [] []).exists_ok_iff.2 hmarks with ⟨B, hB⟩
  have hshows := shows_of_create hB
  rw [← hshows.size_eq] at hdemands
  rcases (checks_performAll B calls).exists_ok_iff.2 hdemands with ⟨A, hA⟩
  refine ⟨A, bind_eq_ok_iff.2 ⟨B, hB, hA⟩, (hshows.performAll hA).congr (fun triple => ?_)
    (fun s => ?_) fun s => ?_⟩
  -- There were no edges and no marks before the first call.
  · rw [List.append_nil, mem_triples, h.connect_iff]
  · rw [List.append_nil, mem_starts, h.setStarting_iff]
  · rw [List.append_nil, mem_finals, h.setFinal_iff]

/-- An automaton is what every constructor makes of its parts. -/
theorem Shows.given (hfits : Fits size relation starting final)
    (h : A.Shows size relation starting final) : A.Given size relation starting final := by
  -- Triples decide everything. Lists with the same members fit as well and show the same automaton.
  have hofRelation : ∀ relation' starting' final',
      (∀ triple, triple ∈ relation' ↔ triple ∈ relation) → (∀ s, s ∈ starting' ↔ s ∈ starting) →
        (∀ s, s ∈ final' ↔ s ∈ final) → ofRelation size relation' starting' final' = .ok A := by
    intro relation' starting' final' hrelation hstarting hfinal
    rcases exists_ofRelation (hfits.congr hrelation hstarting hfinal) with ⟨B, hB⟩
    rw [hB, (shows_of_ofRelation hB).unique (h.congr hrelation hstarting hfinal)]
  refine ⟨h, hofRelation, fun rows hrows => ?_, fun alphabet table htable => ?_,
    fun calls hcalls => ?_, ⟨_, hfits.lists⟩, fun alphabet halphabet =>
      ⟨_, hfits.tabulates halphabet⟩⟩
  · rw [ofMatrix_eq (by simpa [hrows.length_eq] using hrows.length_row), hrows.length_eq]
    exact hofRelation _ _ _ (hrows.mem_matrixTriples_iff hfits) (fun _ => Iff.rfl) fun _ => Iff.rfl
  · rw [ofTable_eq htable.length_row, htable.length_eq]
    exact hofRelation _ _ _ (htable.mem_tableTriples_iff hfits) (fun _ => Iff.rfl) fun _ => Iff.rfl
  · rcases hcalls.exists_performAll hfits with ⟨B, hB, hshows⟩
    rw [hB, hshows.unique h]

/-- From parts that are as demanded, all constructors make one automaton. -/
theorem exists_given (h : Fits size relation starting final) :
    ∃ A : Automaton, A.Given size relation starting final := by
  rcases exists_ofRelation h with ⟨A, hA⟩
  exact ⟨A, (shows_of_ofRelation hA).given h⟩

/-- The parts of an automaton are as demanded, and every constructor makes the automaton of them. -/
theorem WellFormed.given (hA : A.WellFormed) :
    A.Given A.size A.relation A.starting.numbers A.final.numbers :=
  (shows_self A).given ((shows_self A).fits hA)

end Agreement

/-- The constructors agree on parts that are as demanded, with each other and whatever the order and
    the number of times in which the parts are listed, and the automaton has these parts. So an
    automaton can be rebuilt from its triples and from its matrix. Of parts that are not as
    demanded, each constructor reports the first in the order of its demands. -/
theorem constructors_agree :
    (∀ size relation starting final, Fits size relation starting final →
      ∃ A : Automaton, A.Given size relation starting final) ∧
    (∀ A : Automaton, A.WellFormed →
      ofRelation A.size A.relation A.starting.numbers A.final.numbers = .ok A ∧
        ofMatrix A.texts A.starting.numbers A.final.numbers = .ok A) ∧
    (∀ count starting final fault, create count starting final = .error fault ↔
      FirstUnmet count.toNat (marksDemands count starting final) fault) ∧
    (∀ count relation starting final fault,
      ofRelation count relation starting final = .error fault ↔
        FirstUnmet count.toNat (marksDemands count starting final ++ relationDemands relation)
          fault) ∧
    (∀ rows starting final fault, ofMatrix rows starting final = .error fault ↔
      FirstUnmet rows.length (marksDemands rows.length starting final ++ matrixDemands rows)
        fault) ∧
    (∀ alphabet table starting final fault, ofTable alphabet table starting final = .error fault ↔
      FirstUnmet table.length
        (marksDemands table.length starting final ++ tableDemands alphabet table) fault) ∧
    ∀ (A : Automaton) calls fault, A.performAll calls = .error fault ↔
      FirstUnmet A.size (calls.flatMap Call.demands) fault := by
  refine ⟨fun _ _ _ _ => exists_given, fun A hA => ⟨?_, ?_⟩, checks_create, checks_ofRelation,
    checks_ofMatrix, checks_ofTable, checks_performAll⟩
  · exact hA.given.ofRelation_eq _ _ _ (fun _ => Iff.rfl) (fun _ => Iff.rfl) fun _ => Iff.rfl
  · exact hA.given.ofMatrix_eq _ hA.lists_texts

/-- Triples come with a repetition, and an automaton has a cycle of epsilon edges. Of a state to
    mark that does not exist, a label that is no symbol and a row that is too short, the state is
    reported. -/
theorem constructors_agree_repeated :
    (Fits 2 [(0, "a", 1), (1, "", 0), (0, "a", 1)] [0] [1, 1] ∧
      ∃ A : Automaton, A.Given 2 [(0, "a", 1), (1, "", 0), (0, "a", 1)] [0] [1, 1]) ∧
    (winding.WellFormed ∧
      ofMatrix winding.texts winding.starting.numbers winding.final.numbers = .ok winding) ∧
    ofMatrix [[["ab"], []], [[]]] [0, 7] [] = .error (.missingState 7 2) := by
  have ha : (Demand.label "a").Met 2 := Or.inr ⟨'a', by decide, rfl⟩
  have hfits : Fits 2 [(0, "a", 1), (1, "", 0), (0, "a", 1)] [0] [1, 1] := by
    refine ⟨by simp [Demand.Met], by simp [Demand.Met], ?_⟩
    have hepsilon : (Demand.label "").Met 2 := Or.inl rfl
    simp only [edgeDemands, List.forall_mem_cons, ha, hepsilon]
    simp [Demand.Met]
  have hwinding : winding.WellFormed := by decide +kernel
  rcases constructors_agree with ⟨hagree, hrebuild, -, -, hmatrix, -, -⟩
  refine ⟨⟨hfits, hagree _ _ _ _ hfits⟩, ⟨hwinding, (hrebuild winding hwinding).2⟩, ?_⟩
  -- The states are demanded before the row lengths and the labels.
  refine (hmatrix _ _ _ _).2 ⟨[.count 2, .state 0], .state 7, _, rfl, ?_, ?_, rfl⟩
  · simp [Demand.Met]
  · simp [Demand.Met]

end Automaton

end FiniteState
