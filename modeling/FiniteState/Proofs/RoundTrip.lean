import FiniteState.Proofs.Stages
import FiniteState.Proofs.Writing

/-!
# Reading Back What Was Written

A content that describes an automaton is read as that automaton. The lines are read one by one, and
each says what it writes down; what remains is to gather what they say. The states come out with the
numbers that they are named by, since numerals are put in the order of the numbers and not in that
of the characters, where `10` would come before `9`.

Every automaton without blanks among its symbols has a description, the one that `write` makes. It
is one of many, but it shows that nothing is claimed of contents that do not exist.

## Main definitions

* `Description.Tells`: Statements tell an automaton.
* `Description.Inventory.Holds`: An inventory holds what an automaton is made of.
* `Description.write`: A description of an automaton.

## Theorems

* `Automaton.WellFormed.ofRelation_eq_ok`: The marks and the edges of an automaton make it.
* `Description.Describes.exists_statements`: The lines of a description tell the automaton.
* `Description.Inventory.Lists.holds`: What statements tell is what the automaton is made of.
* `Description.Inventory.assemble_eq_ok`: What an automaton is made of makes it.
* `Description.describes_write`: What is written down describes the automaton.
* `Description.reads_of_describes`: The order in which sets are gone through does not matter to it.
* `Description.readWithin_of_describes`: What describes an automaton is read as that automaton.
-/

namespace FiniteState

namespace Automaton

/-- The marks and the edges of an automaton make that automaton, whatever order they come in. -/
theorem WellFormed.ofRelation_eq_ok {A : Automaton} (hA : A.WellFormed) {starting final : List Nat}
    {edges : List Edge} (hstarting : ∀ s, s ∈ starting ↔ s ∈ A.starting)
    (hfinal : ∀ s, s ∈ final ↔ s ∈ A.final) (hedges : ∀ e, e ∈ edges ↔ e ∈ A.edges) :
    ofRelation A.size
        (edges.map fun e => ((e.source : Int), String.ofList e.label.toList, (e.target : Int)))
        (starting.map Int.ofNat) (final.map Int.ofNat) = .ok A := by
  have hcreate := create_eq_ok (fun s hs => hA.starting_lt s ((hstarting s).1 hs))
    (fun s hs => hA.final_lt s ((hfinal s).1 hs))
  rw [ofRelation, hcreate]
  refine bind_eq_ok_iff.2 ⟨_, rfl, bind_eq_ok_iff.2 ⟨edges, ?_, congrArg Except.ok ?_⟩⟩
  · rw [mapM_eq_ok_iff, List.forall₂_map_left_iff, List.forall₂_same]
    intro e he
    have heA := (hedges e).1 he
    exact checkEdge_eq_ok (hA.source_lt e heA) (hA.target_lt e heA) (hA.isSymbol_of_label e heA)
  · refine ext_edges rfl ?_ ?_ fun e => by rw [Edge.mem_ofList, hedges]
    · exact StateSet.ext_mem fun s => by rw [StateSet.mem_ofList, hstarting]
    · exact StateSet.ext_mem fun s => by rw [StateSet.mem_ofList, hfinal]

end Automaton

namespace Description

variable {limit : Nat} {A : Automaton} {entry : Entry} {line content : List Char}

/-! ### Whole automata -/

/-- Statements tell an automaton: each of them says an entry of it, and every entry is said. -/
structure Tells (A : Automaton) (statements : List Statement) : Prop where
  said : ∀ said ∈ statements, ∃ entry, Says A entry said
  size : ∃ said ∈ statements, Says A .size said
  starting : ∃ said ∈ statements, Says A .starting said
  final : ∃ said ∈ statements, Says A .final said
  edge : ∀ e ∈ A.edges, ∃ said ∈ statements, Says A (.edge e) said

/-- A content that describes an automaton is made of statements that tell it. -/
theorem Describes.exists_statements (hA : A.WellFormed) (hlimit : (numeral A.size).length ≤ limit)
    (h : Describes A content) :
    ∃ statements, (significantLines content).mapM (readStatement limit) = .ok statements ∧
      Tells A statements := by
  have hread : ∀ core ∈ significantLines content, ∃ said, readStatement limit core = .ok said := by
    intro core hcore
    rcases h.exists_entry hcore with ⟨entry, hwrites⟩
    rcases readStatement_of_writes hA hlimit hwrites with ⟨said, hsaid, -⟩
    exact ⟨said, hsaid⟩
  -- No line that can be read is left, so the content is gone through to its end.
  rcases exists_mapM_iff.2 hread with ⟨statements, hstatements⟩
  have hentry : ∀ entry, WrittenIn A content entry → ∃ said ∈ statements, Says A entry said := by
    intro entry hwritten
    rcases hwritten.exists_significant with ⟨core, hcore, hwrites⟩
    rcases readStatement_of_writes hA hlimit hwrites with ⟨said, hsaid, hsays⟩
    exact ⟨said, (mem_mapM_iff hstatements).2 ⟨core, hcore, hsaid⟩, hsays⟩
  refine ⟨statements, hstatements, fun said hsaid => ?_, hentry _ h.size, hentry _ h.starting,
    hentry _ h.final, fun e he => hentry _ (h.edge e he)⟩
  -- What is said was read from a line, and reading that line again says the same.
  rcases (mem_mapM_iff hstatements).1 hsaid with ⟨core, hcore, hcore_said⟩
  rcases h.exists_entry hcore with ⟨entry, hwrites⟩
  rcases readStatement_of_writes hA hlimit hwrites with ⟨said', hsaid', hsays⟩
  rw [hcore_said, Except.ok.injEq] at hsaid'
  exact ⟨entry, hsaid' ▸ hsays⟩

namespace Inventory

variable {inventory : Inventory}

/-- An inventory holds the states, marks and edges of an automaton. -/
structure Holds (inventory : Inventory) (A : Automaton) : Prop where
  perm_names : (countedNames A.size).Perm inventory.names
  mem_starting : ∀ name, name ∈ inventory.starting ↔ ∃ s ∈ A.starting, numeral s = name
  mem_accepting : ∀ name, name ∈ inventory.accepting ↔ ∃ s ∈ A.final, numeral s = name
  mem_edges : ∀ edge, edge ∈ inventory.edges ↔
    ∃ e ∈ A.edges, (numeral e.source, e.label, numeral e.target) = edge

/-- Lists of what statements say that tell an automaton hold what it is made of. -/
theorem Lists.holds {statements : List Statement} (h : inventory.Lists statements)
    (hA : A.WellFormed) (htells : Tells A statements) : inventory.Holds A where
  perm_names := by
    rw [List.perm_ext_iff_of_nodup (nodup_countedNames A.size) h.nodup_names]
    intro name
    rw [h.mem_names]
    constructor
    · intro hname
      rcases htells.size with ⟨said, hsaid, hsays⟩
      cases hsays with
      | size => exact ⟨_, hsaid, hname⟩
    -- The states that a statement mentions exist, since the automaton is well-formed.
    · intro hname
      rcases hname with ⟨said, hsaid, hmem⟩
      rcases htells.said said hsaid with ⟨entry, hsays⟩
      cases hsays with
      | size => exact hmem
      | starting hnames =>
        rcases (hnames name).1 hmem with ⟨s, hs, hnumeral⟩
        exact mem_countedNames.2 ⟨s, hA.starting_lt s hs, hnumeral⟩
      | final hnames =>
        rcases (hnames name).1 hmem with ⟨s, hs, hnumeral⟩
        exact mem_countedNames.2 ⟨s, hA.final_lt s hs, hnumeral⟩
      | edge he =>
        rcases List.mem_pair.1 hmem with rfl | rfl
        · exact mem_countedNames.2 ⟨_, hA.source_lt _ he, rfl⟩
        · exact mem_countedNames.2 ⟨_, hA.target_lt _ he, rfl⟩
  mem_starting name := by
    rw [h.mem_starting]
    constructor
    · intro hname
      rcases hname with ⟨said, hsaid, hmem⟩
      rcases htells.said said hsaid with ⟨entry, hsays⟩
      cases hsays with
      | starting hnames => exact (hnames name).1 hmem
      | size | final | edge => exact absurd hmem List.not_mem_nil
    · intro hname
      rcases htells.starting with ⟨said, hsaid, hsays⟩
      cases hsays with
      | starting hnames => exact ⟨_, hsaid, (hnames name).2 hname⟩
  mem_accepting name := by
    rw [h.mem_accepting]
    constructor
    · intro hname
      rcases hname with ⟨said, hsaid, hmem⟩
      rcases htells.said said hsaid with ⟨entry, hsays⟩
      cases hsays with
      | final hnames => exact (hnames name).1 hmem
      | size | starting | edge => exact absurd hmem List.not_mem_nil
    · intro hname
      rcases htells.final with ⟨said, hsaid, hsays⟩
      cases hsays with
      | final hnames => exact ⟨_, hsaid, (hnames name).2 hname⟩
  mem_edges edge := by
    rw [h.mem_edges]
    constructor
    · intro hedge
      rcases hedge with ⟨said, hsaid, hsame⟩
      rcases htells.said said hsaid with ⟨entry, hsays⟩
      cases hsays with
      | edge he => exact ⟨_, he, Option.some.inj hsame⟩
      | size | starting | final => exact nomatch hsame
    · intro hedge
      rcases hedge with ⟨e, he, rfl⟩
      rcases htells.edge e he with ⟨said, hsaid, hsays⟩
      cases hsays with
      | edge => exact ⟨_, hsaid, rfl⟩

theorem length_countedNames (count : Nat) : (countedNames count).length = count := by
  simp [countedNames]

/-- The number of a state is the one that it is named after. -/
theorem idxOf_numeral {count s : Nat} (hs : s < count) :
    (countedNames count).idxOf (numeral s) = s := by
  have hlength : s < (countedNames count).length := by rwa [length_countedNames]
  have hget : (countedNames count)[s] = numeral s := by simp [countedNames, numeral]
  rw [← hget]
  exact (nodup_countedNames count).idxOf_getElem s hlength

/-- The marked states are those whose numerals are listed. -/
theorem mem_map_idxOf {count : Nat} {marked : StateSet} {names : List (List Char)}
    (hmarked : ∀ s ∈ marked, s < count)
    (hnames : ∀ name, name ∈ names ↔ ∃ s ∈ marked, numeral s = name) (s : Nat) :
    s ∈ names.map (fun name => (countedNames count).idxOf name) ↔ s ∈ marked := by
  rw [List.mem_map]
  constructor
  · intro h
    rcases h with ⟨name, hname, rfl⟩
    rcases (hnames name).1 hname with ⟨t, ht, rfl⟩
    rwa [idxOf_numeral (hmarked t ht)]
  · intro h
    exact ⟨numeral s, (hnames _).2 ⟨s, h, rfl⟩, idxOf_numeral (hmarked s h)⟩

/-- An edge with numbers in place of names. -/
def numbered (names : List (List Char)) : List Char × Option Char × List Char → Edge
  | (source, label, target) => ⟨names.idxOf source, names.idxOf target, label⟩

theorem numbered_numeral (hA : A.WellFormed) {e : Edge} (he : e ∈ A.edges) :
    numbered (countedNames A.size) (numeral e.source, e.label, numeral e.target) = e := by
  rw [numbered, idxOf_numeral (hA.source_lt e he), idxOf_numeral (hA.target_lt e he)]

/-- What an automaton is made of makes that automaton, its states named by their numerals. -/
theorem assemble_eq_ok (hA : A.WellFormed) (hlimit : (numeral A.size).length ≤ limit)
    (h : inventory.Holds A) : inventory.assemble limit = .ok ⟨A, countedNames A.size⟩ := by
  have hedges : ∀ e, e ∈ inventory.edges.map (numbered (countedNames A.size)) ↔ e ∈ A.edges := by
    intro e
    rw [List.mem_map]
    constructor
    · intro he
      rcases he with ⟨edge, hedge, rfl⟩
      rcases (h.mem_edges edge).1 hedge with ⟨f, hf, rfl⟩
      rwa [numbered_numeral hA hf]
    · intro he
      exact ⟨_, (h.mem_edges _).2 ⟨e, he, rfl⟩, numbered_numeral hA he⟩
  have hmade := hA.ofRelation_eq_ok (mem_map_idxOf hA.starting_lt h.mem_starting)
    (mem_map_idxOf hA.final_lt h.mem_accepting) hedges
  -- The names come out in the order of the numbers, so that each stands at its own number.
  rw [List.map_map, List.map_map, List.map_map] at hmade
  rw [assemble, sortNames_countedNames hlimit h.perm_names]
  refine bind_eq_ok_iff.2 ⟨_, rfl, bind_eq_ok_iff.2 ⟨A, ?_, rfl⟩⟩
  rw [mapError_eq_ok_iff, length_countedNames]
  exact hmade

end Inventory

/-! ### Writing -/

theorem isBlank_of_isDigit {c : Char} (h : c.isDigit = true) : Text.isBlank c = false := by
  have hrange : 48 ≤ c.toNat ∧ c.toNat ≤ 57 := by
    simpa [Char.isDigit, UInt32.le_iff_toNat_le] using h
  simp only [Text.isBlank, Bool.or_eq_false_iff, Bool.and_eq_false_iff, decide_eq_false_iff_not,
    beq_eq_false_iff_ne]
  omega

theorem isBlank_of_mem_numeral {s : Nat} : ∀ c ∈ numeral s, Text.isBlank c = false :=
  fun _ hc => isBlank_of_isDigit (Nat.isDigit_of_mem_toDigits (by decide) (by decide) hc)

theorem numeral_ne_nil (s : Nat) : numeral s ≠ [] :=
  Nat.toDigits_ne_nil

/-- Numerals with a blank in front of each. -/
def listed (states : List Nat) : List Char :=
  states.flatMap fun s => ' ' :: numeral s

/-- The text of a label. -/
def labelText : Option Char → List Char
  | none => "eps".toList
  | some c => [c]

/-- An edge in three words. -/
def edgeLine (e : Edge) : List Char :=
  numeral e.source ++ ' ' :: (labelText e.label ++ ' ' :: numeral e.target)

/-- The line of an entry. -/
def entryLine (A : Automaton) : Entry → List Char
  | .size => "states:".toList ++ listed [A.size]
  | .starting => "start:".toList ++ listed A.starting.toList
  | .final => "accept:".toList ++ listed A.final.toList
  | .edge e => edgeLine e

theorem entryLine_edge (A : Automaton) (e : Edge) : entryLine A (.edge e) = edgeLine e :=
  rfl

/-- All entries of an automaton. -/
def entries (A : Automaton) : List Entry :=
  .size :: .starting :: .final :: A.edges.toList.map .edge

/-- An automaton written down, one line for each entry. -/
def write (A : Automaton) : List Char :=
  Text.unlines ((entries A).map (entryLine A))

theorem isBlank_of_mem_head? (rest : List Char) :
    ∀ c ∈ (' ' :: rest).head?, Text.isBlank c = true := by
  intro c hc
  obtain rfl : ' ' = c := Option.mem_some_iff.1 hc
  decide

theorem spaced_listed (states : List Nat) : Text.Spaced (listed states) (states.map numeral) := by
  induction states with
  | nil => exact .blank (by simp [listed])
  | cons s states ih =>
    have hrest : ∀ c ∈ (listed states).head?, Text.isBlank c = true := by
      cases states with
      | nil => simp [listed]
      | cons t states => exact isBlank_of_mem_head? _
    exact .word (List.forall_mem_singleton.2 (by decide)) (numeral_ne_nil s)
      isBlank_of_mem_numeral hrest ih

/-- A text that ends in a character that is not blank still does so with numerals after it. -/
theorem getLast?_append_listed {front : List Char} (states : List Nat)
    (h : ∀ c ∈ front.getLast?, Text.isBlank c = false) :
    ∀ c ∈ (front ++ listed states).getLast?, Text.isBlank c = false := by
  -- One numeral after the other becomes part of the text in front.
  induction states generalizing front with
  | nil => simpa [listed] using h
  | cons s states ih =>
    have hlast : ∀ c ∈ (front ++ ' ' :: numeral s).getLast?, Text.isBlank c = false := by
      rw [List.getLast?_append_cons, List.getLast?_cons_of_ne_nil (numeral_ne_nil s)]
      exact fun c hc => isBlank_of_mem_numeral c (List.mem_of_mem_getLast? hc)
    have hsame : front ++ listed (s :: states) = (front ++ ' ' :: numeral s) ++ listed states := by
      simp [listed]
    rw [hsame]
    exact ih hlast

theorem not_mem_listed (states : List Nat) : '\n' ∉ listed states := by
  intro hmem
  rcases List.mem_flatMap.1 hmem with ⟨s, -, hs⟩
  rcases List.mem_cons.1 hs with hspace | hnumeral
  · exact absurd hspace (by decide)
  · exact absurd (isBlank_of_mem_numeral _ hnumeral) (by decide)

theorem spells_labelText (label : Option Char) : Spells (labelText label) label := by
  cases label with
  | none => exact .epsilon (by decide +kernel)
  | some c => exact .symbol c

theorem isBlank_of_mem_labelText {label : Option Char}
    (h : ∀ c, label = some c → Text.isBlank c = false) :
    ∀ c ∈ labelText label, Text.isBlank c = false := by
  cases label with
  | none => simp [labelText, Text.isBlank]
  | some d => exact List.forall_mem_singleton.2 (h d rfl)

theorem labelText_ne_nil (label : Option Char) : labelText label ≠ [] := by
  cases label <;> exact List.cons_ne_nil _ _

theorem mem_entries {entry : Entry} (h : entry ∈ entries A) (e : Edge) (he : entry = .edge e) :
    e ∈ A.edges := by
  subst he
  simpa [entries] using h

variable (hblank : ∀ e ∈ A.edges, ∀ c, e.label = some c → Text.isBlank c = false)

include hblank in
/-- The line of an entry writes the entry down. -/
theorem writes_entryLine (h : entry ∈ entries A) : Writes A entry (entryLine A entry) := by
  cases entry with
  | size => exact .size (spaced_listed [A.size])
  | starting => exact .starting (spaced_listed A.starting.toList) (by simp)
  | final => exact .final (spaced_listed A.final.toList) (by simp)
  | edge e =>
    have he := mem_entries h e rfl
    refine .threeWords he (spells_labelText e.label) ?_
    -- The three words are put together from the back, each with the blank in front of it.
    have htarget : Text.Spaced (' ' :: numeral e.target) [numeral e.target] := by
      simpa [listed] using spaced_listed [e.target]
    have hlabel : Text.Spaced ([' '] ++ (labelText e.label ++ ' ' :: numeral e.target))
        [labelText e.label, numeral e.target] :=
      .word (List.forall_mem_singleton.2 (by decide)) (labelText_ne_nil e.label)
        (isBlank_of_mem_labelText (hblank e he)) (isBlank_of_mem_head? _) htarget
    have hline : Text.Spaced ([] ++ edgeLine e)
        [numeral e.source, labelText e.label, numeral e.target] :=
      .word (List.forall_mem_nil _) (numeral_ne_nil _) isBlank_of_mem_numeral
        (isBlank_of_mem_head? _) hlabel
    exact hline

theorem not_mem_of_isBlank {text : List Char} (h : ∀ c ∈ text, Text.isBlank c = false) :
    '\n' ∉ text :=
  fun hmem => absurd (h _ hmem) (by decide)

include hblank in
theorem not_mem_entryLine (h : entry ∈ entries A) : '\n' ∉ entryLine A entry := by
  have hkeyword : ∀ (keyword : String) (states : List Nat), '\n' ∉ keyword.toList →
      '\n' ∉ keyword.toList ++ listed states := by
    intro keyword states hkeyword hmem
    exact (List.mem_append.1 hmem).elim hkeyword (not_mem_listed states)
  cases entry with
  | size => exact hkeyword "states:" _ (by decide +kernel)
  | starting => exact hkeyword "start:" _ (by decide +kernel)
  | final => exact hkeyword "accept:" _ (by decide +kernel)
  | edge e =>
    have hlabel := isBlank_of_mem_labelText (hblank e (mem_entries h e rfl))
    rw [entryLine_edge, edgeLine, List.mem_append, List.mem_cons, List.mem_append, List.mem_cons]
    simp [not_mem_of_isBlank isBlank_of_mem_numeral, not_mem_of_isBlank hlabel]

theorem padded_self (hhead : ∀ c ∈ line.head?, Text.isBlank c = false)
    (hlast : ∀ c ∈ line.getLast?, Text.isBlank c = false) : Padded line line := by
  have hpadded : Padded line ([] ++ (line ++ [])) :=
    .mk (List.forall_mem_nil _) (List.forall_mem_nil _) hhead hlast
  rwa [List.nil_append, List.append_nil] at hpadded

theorem padded_keyword {keyword : String} (states : List Nat) (hne : keyword.toList ≠ [])
    (hkeyword : ∀ c ∈ keyword.toList, Text.isBlank c = false) :
    Padded (keyword.toList ++ listed states) (keyword.toList ++ listed states) := by
  refine padded_self (fun c hc => ?_) (getLast?_append_listed states fun c hc =>
    hkeyword c (List.mem_of_mem_getLast? hc))
  rw [List.head?_append_of_ne_nil _ hne] at hc
  exact hkeyword c (List.mem_of_mem_head? hc)

/-- No blanks stand at the ends of the line of an entry. -/
theorem padded_entryLine (entry : Entry) : Padded (entryLine A entry) (entryLine A entry) := by
  cases entry with
  | size => exact padded_keyword _ (by simp) (by simp [Text.isBlank])
  | starting => exact padded_keyword _ (by simp) (by simp [Text.isBlank])
  | final => exact padded_keyword _ (by simp) (by simp [Text.isBlank])
  | edge e =>
    -- The line ends with a numeral, as it begins with one.
    have hsame : edgeLine e = (numeral e.source ++ ' ' :: labelText e.label) ++
        ' ' :: numeral e.target := by simp [edgeLine]
    refine padded_self (fun c hc => ?_) (fun c hc => ?_)
    · rw [entryLine_edge, edgeLine, List.head?_append_of_ne_nil _ (numeral_ne_nil e.source)] at hc
      exact isBlank_of_mem_numeral c (List.mem_of_mem_head? hc)
    · rw [entryLine_edge, hsame, List.getLast?_append_cons,
        List.getLast?_cons_of_ne_nil (numeral_ne_nil _)] at hc
      exact isBlank_of_mem_numeral c (List.mem_of_mem_getLast? hc)

include hblank in
/-- What is written down describes the automaton. -/
theorem describes_write : Describes A (write A) := by
  -- Lines without line feeds come back out of the text that they are put together to.
  have hlines : Text.lines (write A) = (entries A).map (entryLine A) := by
    refine Text.lines_unlines (List.cons_ne_nil _ _) fun line hline => ?_
    rcases List.mem_map.1 hline with ⟨entry, hentry, rfl⟩
    exact not_mem_entryLine hblank hentry
  have hwritten : ∀ entry ∈ entries A, WrittenIn A (write A) entry := by
    intro entry hentry
    refine ⟨entryLine A entry, ?_, _, padded_entryLine entry, writes_entryLine hblank hentry⟩
    rw [hlines]
    exact List.mem_map_of_mem hentry
  refine ⟨fun line hline => Or.inr ?_, hwritten _ (by simp [entries]),
    hwritten _ (by simp [entries]), hwritten _ (by simp [entries]),
    fun e he => hwritten _ (by simpa [entries] using he)⟩
  rw [hlines] at hline
  rcases List.mem_map.1 hline with ⟨entry, hentry, rfl⟩
  exact ⟨_, entry, padded_entryLine entry, writes_entryLine hblank hentry⟩

/-- However an automaton has been written down, and in whatever order the sets are gone through, it
    is read as the automaton, with its states numbered as they are named. -/
theorem reads_of_describes {outcome : Except Fault Description} (hA : A.WellFormed)
    (hlimit : (numeral A.size).length ≤ limit) (h : Describes A content)
    (hreads : Reads limit content outcome) : outcome = .ok ⟨A, countedNames A.size⟩ := by
  rcases h.exists_statements hA hlimit with ⟨statements, hstatements, htells⟩
  rcases hreads.exists_lists hstatements with ⟨inventory, hlists, rfl⟩
  exact Inventory.assemble_eq_ok hA hlimit (hlists.holds hA htells)

/-- An automaton without blanks among its symbols can be written down, and however that is done,
    what is read is the automaton, with its states numbered as they are named. -/
theorem readWithin_of_describes (hA : A.WellFormed)
    (hblank : ∀ e ∈ A.edges, ∀ c, e.label = some c → Text.isBlank c = false)
    (hlimit : (numeral A.size).length ≤ limit) :
    Describes A (write A) ∧ ∀ content, Describes A content →
      readWithin limit content = .ok ⟨A, countedNames A.size⟩ := by
  refine ⟨describes_write hblank, fun content h => ?_⟩
  exact reads_of_describes hA hlimit h (reads_readWithin limit content)

/-- An automaton with the characters of the format as symbols. -/
def thornyAutomaton : Automaton where
  size := 11
  starting := .ofList [0]
  final := .ofList [9, 10]
  edges := Std.ExtTreeSet.ofList ([⟨0, 10, some '-'⟩, ⟨10, 9, some '>'⟩, ⟨9, 0, none⟩,
    ⟨1, 2, some '#'⟩, ⟨2, 1, some ':'⟩] : List Edge)

/-- A content that describes it. -/
def thornyContent : List Char :=
  "# thorns\n 9 EPSilon 0\n0->-->10\nstates:11\n\n10 > 9\t\n".toList ++
    "  start: 0\naccept: 10 9 10\n1 # 2\n2 -> : -> 1".toList

theorem mem_edges_thornyAutomaton {e : Edge} : e ∈ thornyAutomaton.edges ↔
    e = ⟨0, 10, some '-'⟩ ∨ e = ⟨10, 9, some '>'⟩ ∨ e = ⟨9, 0, none⟩ ∨ e = ⟨1, 2, some '#'⟩ ∨
      e = ⟨2, 1, some ':'⟩ := by
  simp [thornyAutomaton]

/-- The numerals of some states are those of the states in a set of them. -/
theorem mem_numerals_iff (states : List Nat) {names : List (List Char)}
    (hnames : ∀ name ∈ names, ∃ s ∈ states, numeral s = name)
    (hstates : ∀ s ∈ states, numeral s ∈ names) (name : List Char) :
    name ∈ names ↔ ∃ s ∈ StateSet.ofList states, numeral s = name := by
  simp only [StateSet.mem_ofList]
  exact ⟨hnames name, fun h => h.elim fun s hs => hs.2 ▸ hstates s hs.1⟩

theorem describes_thornyContent : Describes thornyAutomaton thornyContent := by
  have hlines : Text.lines thornyContent = ["# thorns".toList, " 9 EPSilon 0".toList,
      "0->-->10".toList, "states:11".toList, [], "10 > 9\t".toList, "  start: 0".toList,
      "accept: 10 9 10".toList, "1 # 2".toList, "2 -> : -> 1".toList] := by decide +kernel
  have hcomment : Insignificant ([] ++ '#' :: " thorns".toList) :=
    .comment (List.forall_mem_nil _) _
  have hblank : Insignificant [] := .blank (List.forall_mem_nil _)
  have hsize : Writes thornyAutomaton .size ("states:".toList ++ "11".toList) :=
    .size (by decide +kernel)
  have hstarting : Writes thornyAutomaton .starting ("start:".toList ++ " 0".toList) :=
    .starting (show Text.Spaced " 0".toList ["0".toList] by decide +kernel)
      (mem_numerals_iff [0] (by decide) (by decide))
  have hfinal : Writes thornyAutomaton .final ("accept:".toList ++ " 10 9 10".toList) :=
    .final (show Text.Spaced " 10 9 10".toList ["10".toList, "9".toList, "10".toList] by
      decide +kernel) (mem_numerals_iff [9, 10] (by decide) (by decide))
  -- The label is the first character of an arrow, and it stands between arrows.
  have hdash : Writes thornyAutomaton (.edge ⟨0, 10, some '-'⟩)
      ("0".toList ++ (['-', '>'] ++ ("-".toList ++ (['-', '>'] ++ "10".toList)))) :=
    .arrows (by simp [mem_edges_thornyAutomaton]) (by decide +kernel) (.symbol '-')
      (by decide +kernel) (by decide +kernel)
  have hcolon : Writes thornyAutomaton (.edge ⟨2, 1, some ':'⟩)
      ("2 ".toList ++ (['-', '>'] ++ (" : ".toList ++ (['-', '>'] ++ " 1".toList)))) :=
    .arrows (by simp [mem_edges_thornyAutomaton]) (by decide +kernel) (.symbol ':')
      (by decide +kernel) (by decide +kernel)
  have hgreater : Writes thornyAutomaton (.edge ⟨10, 9, some '>'⟩) "10 > 9".toList :=
    .threeWords (by simp [mem_edges_thornyAutomaton]) (.symbol '>') (by decide +kernel)
  have hhash : Writes thornyAutomaton (.edge ⟨1, 2, some '#'⟩) "1 # 2".toList :=
    .threeWords (by simp [mem_edges_thornyAutomaton]) (.symbol '#') (by decide +kernel)
  have hepsilon : Writes thornyAutomaton (.edge ⟨9, 0, none⟩) "9 EPSilon 0".toList :=
    .threeWords (by simp [mem_edges_thornyAutomaton])
      (show Spells "EPSilon".toList none from .epsilon (by decide +kernel)) (by decide +kernel)
  refine ⟨?_, ?_, ?_, ?_, ?_⟩
  · rw [hlines]
    simp only [List.forall_mem_cons]
    exact ⟨Or.inl hcomment, Or.inr ⟨_, _, by decide +kernel, hepsilon⟩,
      Or.inr ⟨_, _, by decide +kernel, hdash⟩, Or.inr ⟨_, _, by decide +kernel, hsize⟩,
      Or.inl hblank, Or.inr ⟨_, _, by decide +kernel, hgreater⟩,
      Or.inr ⟨_, _, by decide +kernel, hstarting⟩, Or.inr ⟨_, _, by decide +kernel, hfinal⟩,
      Or.inr ⟨_, _, by decide +kernel, hhash⟩, Or.inr ⟨_, _, by decide +kernel, hcolon⟩,
      List.forall_mem_nil _⟩
  · exact ⟨"states:11".toList, by simp [hlines], _, by decide +kernel, hsize⟩
  · exact ⟨"  start: 0".toList, by simp [hlines], _, by decide +kernel, hstarting⟩
  · exact ⟨"accept: 10 9 10".toList, by simp [hlines], _, by decide +kernel, hfinal⟩
  · intro e he
    rcases mem_edges_thornyAutomaton.1 he with rfl | rfl | rfl | rfl | rfl
    · exact ⟨"0->-->10".toList, by simp [hlines], _, by decide +kernel, hdash⟩
    · exact ⟨"10 > 9\t".toList, by simp [hlines], _, by decide +kernel, hgreater⟩
    · exact ⟨" 9 EPSilon 0".toList, by simp [hlines], _, by decide +kernel, hepsilon⟩
    · exact ⟨"1 # 2".toList, by simp [hlines], _, by decide +kernel, hhash⟩
    · exact ⟨"2 -> : -> 1".toList, by simp [hlines], _, by decide +kernel, hcolon⟩

theorem readWithin_of_describes_thorny :
    thornyAutomaton.WellFormed ∧ Describes thornyAutomaton thornyContent ∧
      read thornyContent = .ok ⟨thornyAutomaton, countedNames 11⟩ := by
  have hA : thornyAutomaton.WellFormed := by
    refine ⟨?_, ?_, ?_, ?_, ?_⟩
    · simp [thornyAutomaton]
    · simp [thornyAutomaton]
    all_goals
      intro e he
      rcases mem_edges_thornyAutomaton.1 he with rfl | rfl | rfl | rfl | rfl <;>
        simp [isSymbol, thornyAutomaton]
  have hblank : ∀ e ∈ thornyAutomaton.edges, ∀ c, e.label = some c → Text.isBlank c = false := by
    intro e he
    rcases mem_edges_thornyAutomaton.1 he with rfl | rfl | rfl | rfl | rfl <;> simp [Text.isBlank]
  exact ⟨hA, describes_thornyContent,
    (readWithin_of_describes hA hblank (by decide)).2 _ describes_thornyContent⟩

end Description

end FiniteState
