import FiniteState.Proofs.LineOrder
import FiniteState.Proofs.Statements
import FiniteState.Proofs.Views
import Mathlib.Data.Set.Function

/-!
# The Ends of Edges

Which contents describe automata, and where the states come from. Every line has to be readable by
itself, and names of digits must have values, since they are sorted by them. Nothing else is asked
of a content: that every end of an edge is a state is the case for any edges, since the ends are
among the names. The states then are the names that the lines mention, each of them once.

So an edge never lacks an end in the sense that a piece of its line is lacking. But what stands in
front of the first arrow or behind the second may be blank, and then the end is the empty text,
which is a state like any other. This is the only way to that state: words are not empty, and
neither are numerals.

## Main definitions

* `Description.Acceptable`: A content describes an automaton.
* `Description.Dangling`: A line with two arrows lacks an end.
* `Description.Named`: Where the states of a description come from, and how they are numbered.

## Theorems

* `Description.mentions_nil_iff`: Only dangling lines mention the empty name.
* `Description.Inventory.Lists.exists_assemble_iff`: When statements are assembled.
* `Description.Reads.exists_iff`: The contents that are read as automata are the acceptable ones.
* `Description.Reads.named`: The states are what the lines mention, each of them once.
* `Description.readWithin_named`: All states of a description are accounted for.
-/

namespace FiniteState

namespace Description

/-- A content describes an automaton: its lines can be read, and so can the names of digits in
    them. -/
structure Acceptable (limit : Nat) (content : List Char) : Prop where
  line : ∀ line ∈ significantLines content, Readable limit line
  name : ∀ line ∈ significantLines content, ∀ name, Mentions limit line name →
    Text.isDigits name = true → ∃ value, nameValue limit name = .ok value

/-- A line with two arrows lacks an end: there are only blanks in front of the first arrow, or
    behind the second. -/
inductive Dangling : List Char → Prop
  | mk {line first middle last : List Char} (hother : ¬ Keyworded line)
      (hcuts : Text.Cuts ['-', '>'] line [first, middle, last])
      (h : (∀ c ∈ first, Text.isBlank c = true) ∨ ∀ c ∈ last, Text.isBlank c = true) :
      Dangling line

/-- Where the states of a description come from, and how they are numbered. -/
structure Named (limit : Nat) (content : List Char) (described : Description) : Prop where
  /-- The names stand one to one for the numbers of the states. -/
  bijOn : Set.BijOn (fun name => described.names.idxOf name) {name | name ∈ described.names}
    {s | s < described.automaton.size}
  /-- The names are those that the lines mention. -/
  mem_names : ∀ name, name ∈ described.names ↔
    ∃ line ∈ significantLines content, Mentions limit line name
  /-- One of them is empty if an edge lacks an end. -/
  nil_mem_names : [] ∈ described.names ↔ ∃ line ∈ significantLines content, Dangling line

/-! ### Missing ends -/

/-- Only dangling lines mention the empty name. -/
theorem mentions_nil_iff {limit : Nat} {line : List Char} :
    Mentions limit line [] ↔ Dangling line := by
  have hblank : ∀ {text : List Char}, Padded [] text ↔ ∀ c ∈ text, Text.isBlank c = true :=
    fun {text} => padded_iff.trans Text.trim_eq_nil_iff
  constructor
  · intro h
    -- Words and numerals are not empty, which leaves the two ends of an edge with arrows.
    generalize hname : ([] : List Char) = name at h
    cases h with
    | counted => exact absurd hname.symm Nat.toDigits_ne_nil
    | listed h _ hmem => exact absurd hname.symm (h.ne_nil_of_mem hmem)
    | starting h hmem => exact absurd hname.symm (h.ne_nil_of_mem hmem)
    | accepting h hmem => exact absurd hname.symm (h.ne_nil_of_mem hmem)
    | source hother h =>
      subst hname
      cases h with
      | arrows hcuts hsource _ _ => exact .mk hother hcuts (Or.inl (hblank.1 hsource))
      | threeWords _ h => exact absurd rfl (h.ne_nil_of_mem (by simp))
    | target hother h =>
      subst hname
      cases h with
      | arrows hcuts _ _ htarget => exact .mk hother hcuts (Or.inr (hblank.1 htarget))
      | threeWords _ h => exact absurd rfl (h.ne_nil_of_mem (by simp))
  · intro h
    cases h with
    | @mk first middle last hother hcuts h =>
      rcases h with hfirst | hlast
      · exact .source hother (.arrows hcuts (hblank.2 hfirst) (padded_iff.2 rfl) (padded_iff.2 rfl))
      · exact .target hother (.arrows hcuts (padded_iff.2 rfl) (padded_iff.2 rfl) (hblank.2 hlast))

/-! ### Assembling -/

section Assembling

variable {limit : Nat} {names : List (List Char)} {statements : List Statement}
  {inventory : Inventory} {described : Description}

/-- A name has a key if it has a value, in case it is one of digits. -/
theorem exists_nameKey_iff {name : List Char} : (∃ key, nameKey limit name = .ok key) ↔
    (Text.isDigits name = true → ∃ value, nameValue limit name = .ok value) := by
  unfold nameKey
  by_cases hdigits : Text.isDigits name = true
  · rw [if_pos hdigits]
    cases nameValue limit name with
    | ok value => exact ⟨fun _ _ => ⟨value, rfl⟩, fun _ => ⟨.number value, rfl⟩⟩
    | error fault =>
      refine ⟨?_, fun h => ?_⟩
      · rintro ⟨key, hkey⟩
        exact nomatch hkey
      · rcases h hdigits with ⟨value, hvalue⟩
        exact nomatch hvalue
  · rw [if_neg hdigits]
    exact ⟨fun _ hyes => absurd hyes hdigits, fun _ => ⟨_, rfl⟩⟩

theorem met_label_ofList_iff {size : Nat} {label : Option Char} :
    (Automaton.Demand.label (String.ofList label.toList)).Met size ↔
      ∀ c ∈ label, isSymbol c = true := by
  rw [Automaton.met_label_iff]
  constructor
  · rintro ⟨other, hother⟩
    rcases Automaton.checkLabel_eq_ok_iff.1 hother with ⟨htext, hsymbol⟩
    rw [String.toList_ofList] at htext
    rintro c rfl
    cases other with
    | none => exact nomatch htext
    | some d => exact hsymbol c (congrArg some (List.singleton_inj.1 htext).symm)
  · intro hsymbol
    exact ⟨label, Automaton.checkLabel_eq_ok_iff.2 ⟨String.toList_ofList, hsymbol⟩⟩

/-- The numbers of names are states. -/
theorem met_idxOf {name : List Char} (h : name ∈ names) :
    (Automaton.Demand.state (names.idxOf name)).Met names.length :=
  ⟨Int.natCast_nonneg _, Int.ofNat_lt.2 (List.idxOf_lt_length_of_mem h)⟩

namespace Inventory

/-- The names in marks and edges are among the names. -/
theorem Lists.subset_names (h : inventory.Lists statements) :
    (∀ name ∈ inventory.starting, name ∈ inventory.names) ∧
    (∀ name ∈ inventory.accepting, name ∈ inventory.names) ∧
    ∀ edge ∈ inventory.edges, edge.1 ∈ inventory.names ∧ edge.2.2 ∈ inventory.names := by
  simp only [h.mem_names, h.mem_starting, h.mem_accepting, h.mem_edges]
  -- Each of these comes from one kind of statement, which mentions it.
  refine ⟨?_, ?_, ?_⟩
  · rintro name ⟨said, hsaid, hname⟩
    cases said with
    | starting => exact ⟨_, hsaid, hname⟩
    | states | accepting | edge => exact absurd hname List.not_mem_nil
  · rintro name ⟨said, hsaid, hname⟩
    cases said with
    | accepting => exact ⟨_, hsaid, hname⟩
    | states | starting | edge => exact absurd hname List.not_mem_nil
  · rintro edge ⟨said, hsaid, hedge⟩
    cases said with
    | edge =>
      obtain rfl := Option.some.inj hedge
      exact ⟨⟨_, hsaid, List.mem_cons_self⟩, ⟨_, hsaid, List.mem_cons_of_mem _ List.mem_cons_self⟩⟩
    | states | starting | accepting => exact nomatch hedge

/-- With numbers for all names, there is an automaton with the marks and edges. -/
theorem exists_ofRelation_of_names (h : inventory.Lists statements)
    (hsymbols : ∀ edge ∈ inventory.edges, ∀ c ∈ edge.2.1, isSymbol c = true)
    (hnames : ∀ name ∈ inventory.names, name ∈ names) :
    ∃ A, Automaton.ofRelation names.length
      (inventory.edges.map fun edge =>
        (names.idxOf edge.1, String.ofList edge.2.1.toList, names.idxOf edge.2.2))
      (inventory.starting.map fun name => (names.idxOf name : Int))
      (inventory.accepting.map fun name => (names.idxOf name : Int)) = .ok A := by
  rcases h.subset_names with ⟨hstarting, haccepting, hedges⟩
  -- All demands are met: the number of a name that is listed is a state, and the labels are
  -- symbols.
  refine Automaton.exists_ofRelation ⟨?_, ?_, ?_⟩ <;> rw [List.forall_mem_map]
  · exact fun name hname => met_idxOf (hnames name (hstarting name hname))
  · exact fun name hname => met_idxOf (hnames name (haccepting name hname))
  · intro edge hedge
    simp only [Automaton.edgeDemands, List.forall_mem_cons, List.not_mem_nil, false_implies,
      implies_true, and_true]
    exact ⟨met_idxOf (hnames _ (hedges edge hedge).1), met_idxOf (hnames _ (hedges edge hedge).2),
      met_label_ofList_iff.2 (hsymbols edge hedge)⟩

/-- Names that have keys and labels that are symbols are all that it takes. -/
theorem Lists.exists_assemble_iff (h : inventory.Lists statements) :
    (∃ described, inventory.assemble limit = .ok described) ↔
      (∀ name ∈ inventory.names, ∃ key, nameKey limit name = .ok key) ∧
        ∀ edge ∈ inventory.edges, ∀ c ∈ edge.2.1, isSymbol c = true := by
  constructor
  · rintro ⟨described, hassemble⟩
    rcases bind_eq_ok_iff.1 hassemble with ⟨names, hsorted, hrest⟩
    rcases bind_eq_ok_iff.1 hrest with ⟨A, hA, -⟩
    -- If there is an automaton, all that is demanded has been met, and the labels are part of it.
    have hmet := (Automaton.checks_ofRelation _ _ _ _).exists_ok_iff.1
      ⟨A, mapError_eq_ok_iff.1 hA⟩
    have hfits := Automaton.fits_iff.2 hmet
    refine ⟨(sortNames_eq_ok_iff.1 hsorted).1, fun edge hedge => ?_⟩
    have hdemands := hfits.relation_met _ (List.mem_map_of_mem hedge)
    exact met_label_ofList_iff.1 (hdemands _ (by simp [Automaton.edgeDemands]))
  · rintro ⟨hkeys, hsymbols⟩
    have hsorted := sortNames_eq_ok_iff.2 ⟨hkeys, rfl⟩
    rcases exists_ofRelation_of_names h hsymbols fun _ hname => List.mem_mergeSort.2 hname with
      ⟨A, hA⟩
    exact ⟨_, bind_eq_ok_iff.2 ⟨_, hsorted, bind_eq_ok_iff.2 ⟨A, mapError_eq_ok_iff.2 hA, rfl⟩⟩⟩

end Inventory

end Assembling

/-! ### Contents -/

section Contents

variable {limit : Nat} {content : List Char} {statements : List Statement}
  {described : Description} {outcome : Except Fault Description}

/-- The states are numbered in the order of their names. -/
theorem bijOn_idxOf {names : List (List Char)} (h : names.Nodup) :
    Set.BijOn (fun name => names.idxOf name) {name | name ∈ names} {s | s < names.length} := by
  refine ⟨fun name hname => List.idxOf_lt_length_of_mem hname, ?_, ?_⟩
  · intro v hv w _ hvw
    exact (List.idxOf_inj hv).1 hvw
  · intro s hs
    have hlength : s < names.length := hs
    exact ⟨names[s], List.getElem_mem hlength, h.idxOf_getElem s hlength⟩

/-- The names of what is assembled are those of the inventory, and there are as many states. -/
theorem names_of_assemble {inventory : Inventory}
    (h : inventory.assemble limit = .ok described) :
    described.names.Perm inventory.names ∧
      described.automaton.size = described.names.length := by
  rcases bind_eq_ok_iff.1 h with ⟨names, hsorted, hrest⟩
  rcases bind_eq_ok_iff.1 hrest with ⟨A, hA, hpure⟩
  obtain rfl := Except.ok.inj hpure
  have hsize := (Automaton.shows_of_ofRelation (mapError_eq_ok_iff.1 hA)).size_eq
  rcases sortNames_eq_ok_iff.1 hsorted with ⟨-, rfl⟩
  exact ⟨List.mergeSort_perm _ _, hsize⟩

/-- The names that occur are those that the lines mention. -/
theorem exists_said_iff (h : (significantLines content).mapM (readStatement limit) = .ok statements)
    (name : List Char) : (∃ said ∈ statements, name ∈ said.names) ↔
      ∃ line ∈ significantLines content, Mentions limit line name := by
  rw [← occurs_iff h]
  constructor
  · rintro ⟨line, hline, said, hread, hname⟩
    exact ⟨line, hline, (mem_names_iff hread).1 hname⟩
  · rintro ⟨line, hline, hname⟩
    rcases exists_mapM_iff.1 ⟨statements, h⟩ line hline with ⟨said, hread⟩
    exact ⟨line, hline, said, hread, (mem_names_iff hread).2 hname⟩

/-- A content is read as some automaton if what its lines say is supported and its names of digits
    have values. -/
theorem Reads.exists_of_mapM (h : Reads limit content outcome)
    (hread : (significantLines content).mapM (readStatement limit) = .ok statements)
    (hsupported : ∀ said ∈ statements, said.Supported)
    (hvalues : ∀ said ∈ statements, ∀ name ∈ said.names, Text.isDigits name = true →
      ∃ value, nameValue limit name = .ok value) :
    ∃ described, outcome = .ok described := by
  rcases h.exists_lists hread with ⟨inventory, hlists, rfl⟩
  refine hlists.exists_assemble_iff.2 ⟨fun name hname => ?_, fun edge hedge => ?_⟩
  · rcases (hlists.mem_names name).1 hname with ⟨said, hsaid, hmem⟩
    exact exists_nameKey_iff.2 (hvalues said hsaid name hmem)
  · rcases (hlists.mem_edges edge).1 hedge with ⟨said, hsaid, htold⟩
    exact hsupported said hsaid edge htold

theorem exists_readWithin_of_words
    (hread : (significantLines content).mapM (readStatement limit) = .ok statements)
    (hwords : ∀ said ∈ statements, said.Supported ∧
      ∀ name ∈ said.names, Text.isDigits name = false) :
    ∃ described, readWithin limit content = .ok described := by
  refine (reads_readWithin limit content).exists_of_mapM hread
    (fun said hsaid => (hwords said hsaid).1) ?_
  intro said hsaid name hname hdigits
  exact absurd hdigits (Bool.eq_false_iff.1 ((hwords said hsaid).2 name hname))

/-- The contents that are read as automata are the acceptable ones, whatever the order in which the
    sets are gone through. -/
theorem Reads.exists_iff (h : Reads limit content outcome) :
    (∃ described, outcome = .ok described) ↔ Acceptable limit content := by
  constructor
  · rintro ⟨described, hdescribed⟩
    rcases h.exists_assemble hdescribed with ⟨statements, hread, inventory, hlists, hassemble⟩
    rcases hlists.exists_assemble_iff.1 ⟨described, hassemble⟩ with ⟨hkeys, hsymbols⟩
    refine ⟨fun line hline => ?_, fun line hline name hname => ?_⟩
    · rcases exists_mapM_iff.1 ⟨statements, hread⟩ line hline with ⟨said, htold⟩
      refine readable_iff.2 ⟨said, htold, fun edge hedge => ?_⟩
      have hsaid := (mem_mapM_iff hread).2 ⟨line, hline, htold⟩
      exact hsymbols edge ((hlists.mem_edges edge).2 ⟨said, hsaid, hedge⟩)
    · have hmem := (exists_said_iff hread name).2 ⟨line, hline, hname⟩
      exact exists_nameKey_iff.1 (hkeys name ((hlists.mem_names name).2 hmem))
  · intro hacceptable
    -- Every line by itself can be read, so all of them can.
    have hall : ∀ line ∈ significantLines content, ∃ said, readStatement limit line = .ok said :=
      fun line hline => (readable_iff.1 (hacceptable.line line hline)).imp fun _ hread => hread.1
    rcases exists_mapM_iff.2 hall with ⟨statements, hread⟩
    refine h.exists_of_mapM hread (fun said hsaid => ?_) fun said hsaid name hname => ?_
    · rcases (mem_mapM_iff hread).1 hsaid with ⟨line, hline, htold⟩
      rcases readable_iff.1 (hacceptable.line line hline) with ⟨said', htold', hsupported⟩
      obtain rfl := Except.ok.inj (htold.symm.trans htold')
      exact hsupported
    · rcases (exists_said_iff hread name).1 ⟨said, hsaid, hname⟩ with ⟨line, hline, hmentions⟩
      exact hacceptable.name line hline name hmentions

/-- The states of a description are what its lines mention, each of them once. -/
theorem Reads.named (h : Reads limit content outcome) (hdescribed : outcome = .ok described) :
    Named limit content described := by
  rcases h.exists_assemble hdescribed with ⟨statements, hread, inventory, hlists, hassemble⟩
  rcases names_of_assemble hassemble with ⟨hperm, hsize⟩
  -- The order of the sets has no part in which names there are.
  have hmentions : ∀ name, name ∈ described.names ↔
      ∃ line ∈ significantLines content, Mentions limit line name := by
    intro name
    rw [hperm.mem_iff, hlists.mem_names, exists_said_iff hread]
  refine ⟨?_, hmentions, ?_⟩
  · rw [hsize]
    exact bijOn_idxOf (hperm.nodup_iff.2 hlists.nodup_names)
  · rw [hmentions]
    simp only [mentions_nil_iff]

/-- A content describes an automaton if it is acceptable, and then the states are what its lines
    mention, each of them once. The empty name is among them if a line lacks an end. -/
theorem readWithin_named (limit : Nat) (content : List Char) :
    ((∃ described, readWithin limit content = .ok described) ↔ Acceptable limit content) ∧
      ∀ described, readWithin limit content = .ok described → Named limit content described :=
  ⟨(reads_readWithin limit content).exists_iff, fun _ => (reads_readWithin limit content).named⟩

end Contents

/-- Three edges, one of which lacks its source. -/
def danglingContent : List Char :=
  "start: q\nq -> a -> r\n-> b -> r\nr c q\n".toList

theorem readWithin_named_dangling :
    ∃ described, readWithin Text.maxDigits danglingContent = .ok described ∧
      Named Text.maxDigits danglingContent described ∧ [] ∈ described.names := by
  have hread : (significantLines danglingContent).mapM (readStatement Text.maxDigits) =
      .ok [.starting ["q".toList], .edge "q".toList (some 'a') "r".toList,
        .edge [] (some 'b') "r".toList, .edge "r".toList (some 'c') "q".toList] := by decide +kernel
  have hline : "-> b -> r".toList ∈ significantLines danglingContent := by decide +kernel
  have hother : ¬ Keyworded "-> b -> r".toList := by decide +kernel
  -- Nothing stands in front of the first arrow.
  have hpieces : Text.cutAt ['-', '>'] "-> b -> r".toList = [[], " b ".toList, " r".toList] := by
    decide +kernel
  have hdangling : Dangling "-> b -> r".toList :=
    .mk hother ((Text.cuts_iff arrow_ne_nil).2 hpieces) (Or.inl (List.forall_mem_nil _))
  rcases exists_readWithin_of_words hread (by decide +kernel) with ⟨described, hdescribed⟩
  have hnamed := (readWithin_named Text.maxDigits danglingContent).2 described hdescribed
  exact ⟨described, hdescribed, hnamed, hnamed.nil_mem_names.2 ⟨_, hline, hdangling⟩⟩

/-- The line of an edge without a source is not refused, and its source is the empty name. -/
theorem read_without_source : ∃ described, read "-> a -> q1".toList = .ok described ∧
    [] ∈ described.names ∧
    ∃ line ∈ significantLines "-> a -> q1".toList, Joins [] "a".toList "q1".toList line := by
  have hread : (significantLines "-> a -> q1".toList).mapM (readStatement Text.maxDigits) =
      .ok [.edge [] (some 'a') "q1".toList] := by decide +kernel
  have hline : "-> a -> q1".toList ∈ significantLines "-> a -> q1".toList := by decide +kernel
  have hother : ¬ Keyworded "-> a -> q1".toList := by decide +kernel
  have hjoins : Joins [] "a".toList "q1".toList "-> a -> q1".toList :=
    joins_iff.2 (by decide +kernel)
  rcases exists_readWithin_of_words hread (by decide +kernel) with ⟨described, hdescribed⟩
  have hnames := ((reads_readWithin _ _).named hdescribed).mem_names
  exact ⟨described, hdescribed, (hnames _).2 ⟨_, hline, .source hother hjoins⟩, _, hline, hjoins⟩

end Description

end FiniteState
