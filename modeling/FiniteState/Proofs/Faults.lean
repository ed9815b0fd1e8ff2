import FiniteState.Automaton.Construction
import FiniteState.Proofs.Outcomes

/-!
# The Fault That Is Reported

Outside data can have several defects at once, and a constructor reports one of them: the first that
it comes upon. Which one that is follows from an order of the items that the constructor reads, and
this order is data here. Each constructor has a list of demands, one for each item, and what it
reports is the fault of the first demand that is not met. If all of them are met it succeeds, so the
lists of demands leave nothing out.

The order is the same for all constructors as far as they have the same arguments: the number of
states, the starting states, the final states, and then the edges. An edge is its source, its target
and its label in this order, and a row has its length looked at before any of its edges.

A sequence of steps goes through the demands of its steps one after another, and so does a step that
is taken for every member of a list. With these two laws the demands of a constructor are read off
its steps.

## Main definitions

* `Automaton.Demand`: What is demanded of an item that a constructor reads.
* `Automaton.FirstUnmet`: A fault is that of the first demand that is not met.
* `Automaton.Checks`: A step fails as a list of demands says.
* `Automaton.marksDemands`, `Automaton.relationDemands`, `Automaton.matrixDemands`,
  `Automaton.tableDemands`: The demands of the constructors.

## Theorems

* `Automaton.Checks.bind`, `Automaton.checks_mapM`: The demands of steps put together.
* `Automaton.Checks.exists_ok_iff`: A step succeeds if all demands are met.
* `Automaton.checks_create`, `Automaton.checks_ofRelation`, `Automaton.checks_ofMatrix`,
  `Automaton.checks_ofTable`: What each constructor reports.
-/

namespace FiniteState

namespace Automaton

/-- What is demanded of an item that a constructor reads. -/
inductive Demand
  /-- A number of states is not negative. -/
  | count (n : Int)
  /-- A state exists. -/
  | state (s : Int)
  /-- A label is empty or a symbol. -/
  | label (text : String)
  /-- A row of a matrix has one entry for each state. -/
  | row (source found : Nat)
  /-- A row of a table has one slot for each label. -/
  | slots (source found expected : Nat)

/-- An item is as demanded, where there are `size` states. -/
def Demand.Met (size : Nat) : Demand → Prop
  | count n => 0 ≤ n
  | state s => 0 ≤ s ∧ s < size
  | label text => text = "" ∨ ∃ c : Char, (1 ≤ c.toNat ∧ c.toNat ≤ 255) ∧ text = String.singleton c
  | row _ found => found = size
  | slots _ found expected => found = expected

/-- What is reported of an item that is not as demanded. -/
def Demand.fault (size : Nat) : Demand → Fault
  | count n => .negativeCount n
  | state s => .missingState s size
  | label text => .invalidSymbol text
  | row source found => .rowLength source found size
  | slots source found expected => .slotCount source found expected

/-- A fault is that of the first demand that is not met. -/
def FirstUnmet (size : Nat) (demands : List Demand) (fault : Fault) : Prop :=
  ∃ before demand after, demands = before ++ demand :: after ∧ (∀ d ∈ before, d.Met size) ∧
    ¬ demand.Met size ∧ fault = demand.fault size

/-- A step goes through demands in order: it fails where the first of them is not met. -/
def Checks {α : Type} (size : Nat) (demands : List Demand) (outcome : Except Fault α) : Prop :=
  ∀ fault, outcome = .error fault ↔ FirstUnmet size demands fault

section Demands

variable {size : Nat} {demand : Demand} {demands others : List Demand} {fault : Fault}

theorem not_firstUnmet_nil : ¬ FirstUnmet size [] fault := by
  rintro ⟨before, demand, after, h, -⟩
  exact absurd h (by simp)

theorem firstUnmet_cons_iff :
    FirstUnmet size (demand :: demands) fault ↔
      (¬ demand.Met size ∧ fault = demand.fault size) ∨
        (demand.Met size ∧ FirstUnmet size demands fault) := by
  constructor
  · rintro ⟨before, unmet, after, h, hbefore, hunmet, hfault⟩
    -- Either nothing comes before the demand that is not met, or the first demand does.
    cases before with
    | nil =>
      obtain ⟨rfl, -⟩ := List.cons.inj h
      exact Or.inl ⟨hunmet, hfault⟩
    | cons first before =>
      obtain ⟨rfl, hrest⟩ := List.cons.inj h
      rcases List.forall_mem_cons.1 hbefore with ⟨hfirst, hbefore⟩
      exact Or.inr ⟨hfirst, before, unmet, after, hrest, hbefore, hunmet, hfault⟩
  · rintro (⟨hunmet, hfault⟩ | ⟨hmet, before, unmet, after, rfl, hbefore, hunmet, hfault⟩)
    · exact ⟨[], demand, demands, rfl, List.forall_mem_nil _, hunmet, hfault⟩
    · exact ⟨demand :: before, unmet, after, rfl, List.forall_mem_cons.2 ⟨hmet, hbefore⟩, hunmet,
        hfault⟩

/-- Of two lists of demands, the second one is looked at only if the first one is met. -/
theorem firstUnmet_append_iff :
    FirstUnmet size (demands ++ others) fault ↔ FirstUnmet size demands fault ∨
      ((∀ d ∈ demands, d.Met size) ∧ FirstUnmet size others fault) := by
  induction demands with
  | nil => simp [not_firstUnmet_nil]
  | cons demand demands ih =>
    rw [List.cons_append, firstUnmet_cons_iff, firstUnmet_cons_iff, ih, List.forall_mem_cons]
    tauto

/-- Demands are met if there is no first one that is not. -/
theorem forall_met_iff :
    (∀ d ∈ demands, d.Met size) ↔ ∀ fault, ¬ FirstUnmet size demands fault := by
  induction demands with
  | nil => simp [not_firstUnmet_nil]
  | cons demand demands ih =>
    rw [List.forall_mem_cons, ih]
    simp only [firstUnmet_cons_iff]
    by_cases hmet : demand.Met size
    · simp [hmet]
    · simp [hmet]

end Demands

/-! ### Steps -/

section Checks

variable {α β : Type} {size : Nat} {demands others : List Demand}

/-- A step succeeds if all demands are met, and only then. -/
theorem Checks.exists_ok_iff {outcome : Except Fault α} (h : Checks size demands outcome) :
    (∃ value, outcome = .ok value) ↔ ∀ d ∈ demands, d.Met size := by
  rw [forall_met_iff]
  cases outcome with
  | ok value => exact iff_of_true ⟨value, rfl⟩ fun fault => mt (h fault).2 (by simp)
  | error fault => exact iff_of_false (by simp) fun hall => hall fault ((h fault).1 rfl)

theorem checks_ok (value : α) : Checks size [] (.ok value) :=
  fun _ => iff_of_false (by simp) not_firstUnmet_nil

theorem checks_single {demand : Demand} {outcome : Except Fault α}
    (hmet : demand.Met size → ∃ value, outcome = .ok value)
    (hunmet : ¬ demand.Met size → outcome = .error (demand.fault size)) :
    Checks size [demand] outcome := by
  intro fault
  rw [firstUnmet_cons_iff]
  by_cases h : demand.Met size
  · rcases hmet h with ⟨value, rfl⟩
    simp [h, not_firstUnmet_nil]
  · rw [hunmet h]
    simp [h, eq_comm]

/-- One step after another goes through the demands of the first and then of the second. -/
theorem Checks.bind {step : Except Fault α} {next : α → Except Fault β}
    (h : Checks size demands step)
    (hnext : ∀ value, step = .ok value → Checks size others (next value)) :
    Checks size (demands ++ others) (step >>= next) := by
  intro fault
  rw [bind_eq_error_iff, firstUnmet_append_iff, ← h, ← h.exists_ok_iff]
  -- The second step is taken, and its demands are looked at, if the first one succeeds.
  refine or_congr_right ⟨?_, ?_⟩
  · rintro ⟨value, hvalue, herror⟩
    exact ⟨⟨value, hvalue⟩, (hnext value hvalue fault).1 herror⟩
  · rintro ⟨⟨value, hvalue⟩, hunmet⟩
    exact ⟨value, hvalue, (hnext value hvalue fault).2 hunmet⟩

/-- What is made of the value of a step does not matter. -/
theorem Checks.map {step : Except Fault α} {next : α → Except Fault β}
    (h : Checks size demands step) (hnext : ∀ value, ∃ result, next value = .ok result) :
    Checks size demands (step >>= next) := by
  rw [← List.append_nil demands]
  refine h.bind fun value _ => ?_
  rcases hnext value with ⟨result, hresult⟩
  rw [hresult]
  exact checks_ok result

/-- A check in front of a step comes before the demands of the step. -/
theorem Checks.guard {demand : Demand} {condition : Prop} [Decidable condition]
    {next : PUnit → Except Fault α} (hcondition : condition ↔ ¬ demand.Met size)
    (h : Checks size demands (next ⟨⟩)) :
    Checks size (demand :: demands)
      (if condition then throw (demand.fault size) >>= next else next ⟨⟩) := by
  intro fault
  rw [firstUnmet_cons_iff]
  by_cases hc : condition
  · have hunmet := hcondition.1 hc
    rw [if_pos hc, bind_eq_error_iff]
    simp [hunmet, throw, throwThe, MonadExceptOf.throw, eq_comm]
  -- If the check passes, its demand is not the first that is not met.
  · have hmet := not_not.1 (mt hcondition.2 hc)
    rw [if_neg hc, h]
    simp [hmet]

/-- A step for every member of a list goes through the demands of the members in order. -/
theorem checks_mapM {f : α → Except Fault β} {demandsOf : α → List Demand} {items : List α}
    (h : ∀ item ∈ items, Checks size (demandsOf item) (f item)) :
    Checks size (items.flatMap demandsOf) (items.mapM f) := by
  induction items with
  | nil => exact checks_ok []
  | cons item items ih =>
    rcases List.forall_mem_cons.1 h with ⟨hitem, hrest⟩
    rw [List.flatMap_cons, List.mapM_cons]
    exact hitem.bind fun value _ => (ih hrest).map fun values => ⟨value :: values, rfl⟩

end Checks

/-! ### Constructors -/

/-- The demands of an edge. -/
def edgeDemands (source : Int) (label : String) (target : Int) : List Demand :=
  [.state source, .state target, .label label]

/-- The demands of the number of states and the marked states. -/
def marksDemands (count : Int) (starting final : List Int) : List Demand :=
  .count count :: (starting.flatMap (fun s => [.state s]) ++ final.flatMap fun s => [.state s])

/-- The demands of triples. -/
def relationDemands (relation : List (Int × String × Int)) : List Demand :=
  relation.flatMap fun (source, label, target) => edgeDemands source label target

/-- The demands of a matrix: row by row, the length of the row before its entries. -/
def matrixDemands (rows : List (List (List String))) : List Demand :=
  rows.zipIdx.flatMap fun (row, source) => .row source row.length ::
    row.zipIdx.flatMap fun (labels, target) => labels.flatMap fun label =>
      edgeDemands source label target

/-- The demands of a table: row by row, the length of the row before its slots. -/
def tableDemands (alphabet : List String) (table : List (List (List Int))) : List Demand :=
  let slots := alphabet ++ [""]
  table.zipIdx.flatMap fun (row, source) => .slots source row.length slots.length ::
    (slots.zip row).flatMap fun (label, targets) => targets.flatMap fun target =>
      edgeDemands source label target

section Constructors

variable {size : Nat} {count : Int} {starting final : List Int} {A : Automaton}

theorem checks_checkState (size : Nat) (state : Int) :
    Checks size [.state state] (checkState size state) := by
  refine checks_single (fun hmet => ?_) fun hunmet => ?_
  · have hexists : 0 ≤ state ∧ state < size := hmet
    exact ⟨_, if_pos hexists⟩
  · have hmissing : ¬ (0 ≤ state ∧ state < size) := hunmet
    exact if_neg hmissing

/-- A label is a text without characters, or one with a symbol as its only character. -/
theorem met_label_iff {label : String} :
    (Demand.label label).Met size ↔ ∃ l, checkLabel label = .ok l := by
  simp only [checkLabel_eq_ok_iff, isSymbol_eq_true_iff, Demand.Met]
  constructor
  · rintro (rfl | ⟨c, hc, rfl⟩)
    · exact ⟨none, rfl, by simp⟩
    · exact ⟨some c, by simp, by simpa using hc⟩
  · rintro ⟨l, htext, hsymbol⟩
    -- A text is known by its characters.
    cases l with
    | none => exact Or.inl (String.toList_inj.1 htext)
    | some c => exact Or.inr ⟨c, hsymbol c rfl, String.toList_inj.1 (by simpa using htext)⟩

theorem checks_checkLabel (size : Nat) (label : String) :
    Checks size [.label label] (checkLabel label) := by
  refine checks_single met_label_iff.1 fun hunmet => ?_
  have hfails : ∀ l, checkLabel label ≠ .ok l := fun l hl => hunmet (met_label_iff.2 ⟨l, hl⟩)
  change checkLabel label = .error (.invalidSymbol label)
  unfold checkLabel at hfails ⊢
  -- A label without characters is no fault, one with a single symbol is none, and anything else is
  -- reported as it is.
  split at hfails
  next => exact absurd rfl (hfails none)
  next c _ =>
    split at hfails
    next => exact absurd rfl (hfails (some c))
    next hsymbol => exact if_neg hsymbol
  next => rfl

theorem checks_checkEdge (size : Nat) (source : Int) (label : String) (target : Int) :
    Checks size (edgeDemands source label target) (checkEdge size source label target) :=
  (checks_checkState size source).bind fun _ _ => (checks_checkState size target).bind fun _ _ =>
    (checks_checkLabel size label).map fun _ => ⟨_, rfl⟩

theorem checks_create (count : Int) (starting final : List Int) :
    Checks count.toNat (marksDemands count starting final) (create count starting final) := by
  unfold create marksDemands
  have hcount : count < 0 ↔ ¬ (Demand.count count).Met count.toNat := Int.not_le.symm
  refine Checks.guard hcount ?_
  refine (checks_mapM fun s _ => checks_checkState _ s).bind fun _ _ => ?_
  exact (checks_mapM fun s _ => checks_checkState _ s).map fun _ => ⟨_, rfl⟩

/-- The parts of an automaton without edges. -/
theorem create_eq_ok_iff :
    create count starting final = .ok A ↔ 0 ≤ count ∧ ∃ starting' final',
      starting.mapM (checkState count.toNat) = .ok starting' ∧
      final.mapM (checkState count.toNat) = .ok final' ∧
        A = ⟨count.toNat, .ofList starting', .ofList final', ∅⟩ := by
  unfold create
  rw [guard_eq_ok_iff, Int.not_lt]
  simp only [bind_eq_ok_iff, pure, Except.pure, Except.ok.injEq]
  constructor
  · rintro ⟨hcount, starting', hstarting, final', hfinal, rfl⟩
    exact ⟨hcount, starting', final', hstarting, hfinal, rfl⟩
  · rintro ⟨hcount, starting', final', hstarting, hfinal, rfl⟩
    exact ⟨hcount, starting', hstarting, final', hfinal, rfl⟩

theorem size_of_create (h : create count starting final = .ok A) : A.size = count.toNat := by
  rcases create_eq_ok_iff.1 h with ⟨-, _, _, -, -, rfl⟩
  rfl

theorem checks_ofRelation (count : Int) (relation : List (Int × String × Int))
    (starting final : List Int) :
    Checks count.toNat (marksDemands count starting final ++ relationDemands relation)
      (ofRelation count relation starting final) := by
  refine (checks_create count starting final).bind fun A hA => ?_
  rw [← size_of_create hA]
  exact (checks_mapM fun triple _ => checks_checkEdge _ _ _ _).map fun _ => ⟨_, rfl⟩

theorem checks_ofMatrix (rows : List (List (List String))) (starting final : List Int) :
    Checks rows.length (marksDemands rows.length starting final ++ matrixDemands rows)
      (ofMatrix rows starting final) := by
  refine (checks_create rows.length starting final).bind fun A hA => ?_
  rw [size_of_create hA, Int.toNat_natCast]
  refine (checks_mapM fun entry _ => ?_).map fun _ => ⟨_, rfl⟩
  unfold rowEdges
  -- The length of a row is checked before anything in it, so its demand comes first.
  have hrow : entry.1.length ≠ rows.length ↔
      ¬ (Demand.row entry.2 entry.1.length).Met rows.length := Iff.rfl
  refine Checks.guard hrow ?_
  refine (checks_mapM fun cell _ => ?_).map fun _ => ⟨_, rfl⟩
  exact checks_mapM fun label _ => checks_checkEdge _ _ _ _

theorem checks_ofTable (alphabet : List String) (table : List (List (List Int)))
    (starting final : List Int) :
    Checks table.length (marksDemands table.length starting final ++ tableDemands alphabet table)
      (ofTable alphabet table starting final) := by
  refine (checks_create table.length starting final).bind fun A hA => ?_
  rw [size_of_create hA, Int.toNat_natCast]
  refine (checks_mapM fun entry _ => ?_).map fun _ => ⟨_, rfl⟩
  unfold slotEdges
  have hslots : entry.1.length ≠ (alphabet ++ [""]).length ↔
      ¬ (Demand.slots entry.2 entry.1.length (alphabet ++ [""]).length).Met table.length := Iff.rfl
  refine Checks.guard hslots ?_
  refine (checks_mapM fun slot _ => ?_).map fun _ => ⟨_, rfl⟩
  exact checks_mapM fun target _ => checks_checkEdge _ _ _ _

end Constructors

end Automaton

end FiniteState
