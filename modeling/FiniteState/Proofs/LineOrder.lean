import FiniteState.Proofs.StateNames

/-!
# The Order of Lines

A description says the same whatever the order of its lines is, however often they are repeated and
however much space and how many comments stand between them. This is no matter of course, since
names, marks and edges are gathered in sets, which may be gone through in any order. Only when the
states are numbered are the names put in order, and an order is all that names with different keys
need: numerals such as `7` and `07` have the same key, and which of the two comes first would depend
on the order in which the set of names happens to be gone through.

So the order of the sets is left open here. `Reads` relates a content to every outcome that reading
it can have, whatever lists of their members the sets are replaced with.

## Main definitions

* `Description.Inventory.Lists`: An inventory lists what statements say, in any order.
* `Description.Reads`: An outcome that reading a content can have.
* `Description.Occurs`: A name occurs in a content.
* `Description.Unambiguous`: The numerals among the names have different values.

## Theorems

* `Automaton.agree_ofRelation`: An automaton depends on which marks and edges it is given only.
* `Description.Inventory.agree_assemble`: Inventories with the same members are assembled alike.
* `Description.Reads.exists_assemble`, `Description.Reads.exists_lists`: What has been assembled.
* `Description.agree_of_reads`: Contents with the same significant lines read alike.
-/

namespace FiniteState

namespace Automaton

variable {count : Int} {starting starting' final final' : List Int}

theorem stateSet_ofList_eq {states states' : List Nat} (h : ∀ s, s ∈ states ↔ s ∈ states') :
    StateSet.ofList states = StateSet.ofList states' :=
  StateSet.ext_mem fun s => by rw [StateSet.mem_ofList, StateSet.mem_ofList, h]

/-- The marks may be handed in in any order and more than once. -/
theorem agree_create (hstarting : ∀ s, s ∈ starting ↔ s ∈ starting')
    (hfinal : ∀ s, s ∈ final ↔ s ∈ final') :
    Agree Eq (create count starting final) (create count starting' final') := by
  unfold create
  by_cases hcount : count < 0
  · rw [if_pos hcount, if_pos hcount]
    exact agree_refl _
  · rw [if_neg hcount, if_neg hcount]
    refine (agree_mapM hstarting).bind fun states states' hstates => ?_
    refine (agree_mapM hfinal).bind fun ends ends' hends => ?_
    -- Sets of states do not keep the order in which they were made.
    rw [stateSet_ofList_eq hstates, stateSet_ofList_eq hends]
    exact agree_refl _

/-- An automaton depends on which marks and which edges it is given, and not on their order. -/
theorem agree_ofRelation {relation relation' : List (Int × String × Int)}
    (hrelation : ∀ triple, triple ∈ relation ↔ triple ∈ relation')
    (hstarting : ∀ s, s ∈ starting ↔ s ∈ starting') (hfinal : ∀ s, s ∈ final ↔ s ∈ final') :
    Agree Eq (ofRelation count relation starting final)
      (ofRelation count relation' starting' final') := by
  unfold ofRelation
  refine (agree_create hstarting hfinal).bind fun A A' hA => ?_
  subst hA
  refine (agree_mapM hrelation).bind fun edges edges' hedges => .values ?_
  exact ext_edges rfl rfl rfl fun e => by rw [Edge.mem_ofList, Edge.mem_ofList, hedges]

end Automaton

namespace Description

variable {limit : Nat}

namespace Inventory

/-- An inventory lists what statements say: the names once each, and everything in any order. -/
structure Lists (inventory : Inventory) (statements : List Statement) : Prop where
  nodup_names : inventory.names.Nodup
  mem_names : ∀ name, name ∈ inventory.names ↔ ∃ said ∈ statements, name ∈ said.names
  mem_starting : ∀ name, name ∈ inventory.starting ↔ ∃ said ∈ statements, name ∈ said.startingNames
  mem_accepting :
    ∀ name, name ∈ inventory.accepting ↔ ∃ said ∈ statements, name ∈ said.acceptingNames
  mem_edges : ∀ edge, edge ∈ inventory.edges ↔ ∃ said ∈ statements, said.edge? = some edge

theorem lists_ofStatements (statements : List Statement) :
    (ofStatements statements).Lists statements where
  nodup_names := by
    have hdistinct : (Std.ExtTreeSet.ofList (statements.flatMap Statement.names)).toList.Pairwise
        fun v w => ¬ compare v w = .eq := Std.ExtTreeSet.distinct_toList
    exact hdistinct.imp fun {v w} hvw heq => hvw (Std.LawfulEqCmp.compare_eq_iff_eq.2 heq)
  mem_names name := by
    simp [ofStatements, Std.ExtTreeSet.mem_ofList]
  mem_starting name := by simp [ofStatements]
  mem_accepting name := by simp [ofStatements]
  mem_edges edge := by simp [ofStatements]

variable {inventory other : Inventory}

/-- Inventories with the same members are assembled alike if no two names have the same key. -/
theorem agree_assemble (hnames : inventory.names.Perm other.names)
    (hstarting : ∀ name, name ∈ inventory.starting ↔ name ∈ other.starting)
    (haccepting : ∀ name, name ∈ inventory.accepting ↔ name ∈ other.accepting)
    (hedges : ∀ edge, edge ∈ inventory.edges ↔ edge ∈ other.edges)
    (hkeys : ∀ v ∈ inventory.names, ∀ w ∈ inventory.names, ∀ key, nameKey limit v = .ok key →
      nameKey limit w = .ok key → v = w) :
    Agree Eq (inventory.assemble limit) (other.assemble limit) := by
  unfold assemble
  refine (sortNames_of_perm hnames hkeys).bind fun names names' hsame => ?_
  -- With the names in the same order, all numbers are the same.
  subst hsame
  refine ((Automaton.agree_ofRelation ?_ ?_ ?_).mapError _).bind ?_
  · intro triple
    simp only [List.mem_map, hedges]
  · intro s
    simp only [List.mem_map, hstarting]
  · intro s
    simp only [List.mem_map, haccepting]
  · intro A A' hA
    rw [hA]
    exact agree_refl _

theorem Lists.perm_names {statements statements' : List Statement}
    (h : inventory.Lists statements) (h' : other.Lists statements')
    (hsame : ∀ said, said ∈ statements ↔ said ∈ statements') :
    inventory.names.Perm other.names := by
  rw [List.perm_ext_iff_of_nodup h.nodup_names h'.nodup_names]
  intro name
  simp only [h.mem_names, h'.mem_names, hsame]

/-- However the sets are gone through, statements with the same members come to the same, as long as
    no two names in them have the same key. -/
theorem Lists.agree_assemble {statements statements' : List Statement}
    (h : inventory.Lists statements) (h' : other.Lists statements')
    (hsame : ∀ said, said ∈ statements ↔ said ∈ statements')
    (hkeys : ∀ v ∈ inventory.names, ∀ w ∈ inventory.names, ∀ key, nameKey limit v = .ok key →
      nameKey limit w = .ok key → v = w) :
    Agree Eq (inventory.assemble limit) (other.assemble limit) := by
  refine Inventory.agree_assemble (h.perm_names h' hsame) ?_ ?_ ?_ hkeys
  · intro name
    simp only [h.mem_starting, h'.mem_starting, hsame]
  · intro name
    simp only [h.mem_accepting, h'.mem_accepting, hsame]
  · intro edge
    simp only [h.mem_edges, h'.mem_edges, hsame]

end Inventory

/-- An outcome that reading a content can have, whatever the order in which the sets of names, marks
    and edges are gone through. -/
inductive Reads (limit : Nat) (content : List Char) : Except Fault Description → Prop
  | unreadable {fault : Fault}
      (h : (significantLines content).mapM (readStatement limit) = .error fault) :
      Reads limit content (.error fault)
  | assembled {statements : List Statement} {inventory : Inventory}
      (h : (significantLines content).mapM (readStatement limit) = .ok statements)
      (hlists : inventory.Lists statements) : Reads limit content (inventory.assemble limit)

/-- The order of the program is one of them. -/
theorem reads_readWithin (limit : Nat) (content : List Char) :
    Reads limit content (readWithin limit content) := by
  unfold readWithin
  cases h : (significantLines content).mapM (readStatement limit) with
  | error fault => exact .unreadable h
  | ok statements => exact .assembled h (Inventory.lists_ofStatements statements)

section Reads

variable {content : List Char} {outcome : Except Fault Description} {statements : List Statement}

/-- What a content is read as has been assembled from lists of what its lines say. -/
theorem Reads.exists_assemble {described : Description} (h : Reads limit content outcome)
    (hok : outcome = .ok described) :
    ∃ statements, (significantLines content).mapM (readStatement limit) = .ok statements ∧
      ∃ inventory : Inventory, inventory.Lists statements ∧
        inventory.assemble limit = .ok described := by
  cases h with
  | unreadable _ => exact nomatch hok
  | assembled hstatements hlists => exact ⟨_, hstatements, _, hlists, hok⟩

/-- If all lines can be read, the outcome is what lists of what they say are assembled to. -/
theorem Reads.exists_lists (h : Reads limit content outcome)
    (hstatements : (significantLines content).mapM (readStatement limit) = .ok statements) :
    ∃ inventory : Inventory, inventory.Lists statements ∧ inventory.assemble limit = outcome := by
  cases h with
  | unreadable hfault => exact nomatch hfault.symm.trans hstatements
  | assembled hread hlists =>
    obtain rfl := Except.ok.inj (hread.symm.trans hstatements)
    exact ⟨_, hlists, rfl⟩

end Reads

/-- A name occurs in a content. -/
def Occurs (limit : Nat) (content name : List Char) : Prop :=
  ∃ line ∈ significantLines content, ∃ said, readStatement limit line = .ok said ∧ name ∈ said.names

/-- The names in a content are those in what its lines say. -/
theorem occurs_iff {content name : List Char} {statements : List Statement}
    (h : (significantLines content).mapM (readStatement limit) = .ok statements) :
    Occurs limit content name ↔ ∃ said ∈ statements, name ∈ said.names := by
  simp only [mem_mapM_iff h, Occurs]
  constructor
  · intro hname
    rcases hname with ⟨line, hline, said, hread, hmem⟩
    exact ⟨said, ⟨line, hline, hread⟩, hmem⟩
  · intro hname
    rcases hname with ⟨said, ⟨line, hline, hread⟩, hmem⟩
    exact ⟨line, hline, said, hread, hmem⟩

/-- Of the names in a content, those that are numerals have different values. -/
def Unambiguous (limit : Nat) (content : List Char) : Prop :=
  ∀ v w value, Occurs limit content v → Occurs limit content w →
    nameKey limit v = .ok (.number value) → nameKey limit w = .ok (.number value) → v = w

/-- A content is unambiguous if none of the names in what its lines say share a key. -/
theorem unambiguous_of_keys {content : List Char} {statements : List Statement}
    (h : (significantLines content).mapM (readStatement limit) = .ok statements)
    (hkeys : ∀ v ∈ statements.flatMap Statement.names, ∀ w ∈ statements.flatMap Statement.names,
      nameKey limit v = nameKey limit w → v = w) : Unambiguous limit content := by
  intro v w value hv hw hkey hkey'
  rw [occurs_iff h, ← List.mem_flatMap] at hv hw
  exact hkeys v hv w hw (hkey.trans hkey'.symm)

/-- Names that are no numerals are their own keys. -/
theorem eq_of_nameKey_eq_word {name text : List Char} (h : nameKey limit name = .ok (.word text)) :
    text = name := by
  unfold nameKey at h
  by_cases hdigits : Text.isDigits name = true
  · rw [if_pos hdigits] at h
    cases hvalue : nameValue limit name <;> rw [hvalue] at h <;> exact nomatch h
  · rw [if_neg hdigits] at h
    exact (NameKey.word.inj (Except.ok.inj h)).symm

/-- In a content where numerals have different values, no two names have the same key. -/
theorem Unambiguous.eq_of_nameKey {content v w : List Char} {key : NameKey}
    (h : Unambiguous limit content) (hv : Occurs limit content v) (hw : Occurs limit content w)
    (hkey : nameKey limit v = .ok key) (hkey' : nameKey limit w = .ok key) : v = w := by
  cases key with
  | number value => exact h v w value hv hw hkey hkey'
  | word text => rw [← eq_of_nameKey_eq_word hkey, eq_of_nameKey_eq_word hkey']

/-- Contents with the same significant lines, in any order and repeated, read alike: either neither
    describes an automaton, or both describe the same automaton with the same names. -/
theorem agree_of_reads {content content' : List Char}
    (hlines : ∀ line, line ∈ significantLines content ↔ line ∈ significantLines content')
    (hdistinct : Unambiguous limit content) {outcome outcome' : Except Fault Description}
    (h : Reads limit content outcome) (h' : Reads limit content' outcome') :
    Agree Eq outcome outcome' := by
  have hread : Agree (fun statements statements' => ∀ said, said ∈ statements ↔ said ∈ statements')
      ((significantLines content).mapM (readStatement limit))
      ((significantLines content').mapM (readStatement limit)) := agree_mapM hlines
  -- Both contents have the same lines, so there is none that only one of them fails at.
  cases h with
  | unreadable hfault =>
    cases h' with
    | unreadable hfault' => exact .faults _ _
    | assembled hstatements' _ =>
      rw [hfault, hstatements'] at hread
      exact nomatch hread
  | @assembled statements inventory hstatements hlists =>
    cases h' with
    | unreadable hfault' =>
      rw [hstatements, hfault'] at hread
      exact nomatch hread
    | assembled hstatements' hlists' =>
      rw [hstatements, hstatements'] at hread
      cases hread with
      | values hsame =>
        refine hlists.agree_assemble hlists' hsame fun v hv w hw key hkey hkey' => ?_
        have hoccurs : ∀ name ∈ inventory.names, Occurs limit content name :=
          fun name hname => (occurs_iff hstatements).2 ((hlists.mem_names name).1 hname)
        exact hdistinct.eq_of_nameKey (hoccurs v hv) (hoccurs w hw) hkey hkey'

/-- A description says what its significant lines say, whatever their order is, however often each
    of them comes, and in whatever order the sets are gone through. -/
theorem read_of_same_lines {content content' : List Char}
    (hlines : ∀ line, line ∈ significantLines content ↔ line ∈ significantLines content')
    (hdistinct : Unambiguous limit content) :
    Agree Eq (readWithin limit content) (readWithin limit content') ∧
      ∀ outcome outcome', Reads limit content outcome → Reads limit content' outcome' →
        Agree Eq outcome outcome' :=
  ⟨agree_of_reads hlines hdistinct (reads_readWithin limit content)
      (reads_readWithin limit content'),
    fun _ _ h h' => agree_of_reads hlines hdistinct h h'⟩

/-- A description with a numeral and with words as names. -/
def orderlyContent : List Char :=
  "states: q 10 9\nstart: q\nq -> a -> 10\n10 eps 9\naccept: 9".toList

/-- The same lines in another order, some of them twice, with space and comments between them. -/
def shuffledContent : List Char :=
  "\n  10 eps 9\n# from q\nq -> a -> 10\n\taccept: 9\n\nstates: q 10 9\n10 eps 9\n start: q ".toList

/-- What both of them describe: the numerals come first, in the order of their values. -/
def orderlyDescription : Description where
  automaton :=
    { size := 3
      starting := .ofList [2]
      final := .ofList [0]
      edges := Std.ExtTreeSet.ofList ([⟨2, 1, some 'a'⟩, ⟨1, 0, none⟩] : List Edge) }
  names := ["9".toList, "10".toList, "q".toList]

theorem read_shuffledContent :
    (∀ line, line ∈ significantLines orderlyContent ↔ line ∈ significantLines shuffledContent) ∧
    Unambiguous Text.maxDigits orderlyContent ∧
    read orderlyContent = .ok orderlyDescription ∧
      read shuffledContent = .ok orderlyDescription := by
  have hleft : significantLines orderlyContent = ["states: q 10 9".toList, "start: q".toList,
    "q -> a -> 10".toList, "10 eps 9".toList, "accept: 9".toList] := by cbv
  have hright : significantLines shuffledContent = ["10 eps 9".toList, "q -> a -> 10".toList,
    "accept: 9".toList, "states: q 10 9".toList, "10 eps 9".toList, "start: q".toList] := by cbv
  have hlines : ∀ line, line ∈ significantLines orderlyContent ↔
      line ∈ significantLines shuffledContent := by
    have hto : ∀ line ∈ significantLines orderlyContent,
        line ∈ significantLines shuffledContent := by
      rw [hleft, hright]
      decide
    have hback : ∀ line ∈ significantLines shuffledContent,
        line ∈ significantLines orderlyContent := by
      rw [hleft, hright]
      decide
    exact fun line => ⟨hto line, hback line⟩
  have hread : (significantLines orderlyContent).mapM (readStatement Text.maxDigits) =
      .ok [.states ["q".toList, "10".toList, "9".toList], .starting ["q".toList],
        .edge "q".toList (some 'a') "10".toList, .edge "10".toList none "9".toList,
        .accepting ["9".toList]] := by decide +kernel
  -- The keys are told apart by their values, which are evaluated.
  have hdistinct : Unambiguous Text.maxDigits orderlyContent :=
    unambiguous_of_keys hread (by decide +kernel)
  have hkeys : ∀ name ∈ ["10".toList, "9".toList, "q".toList],
      ∃ key, nameKey Text.maxDigits name = .ok key :=
    List.forall_mem_cons.2 ⟨⟨.number 10, by decide +kernel⟩,
      List.forall_mem_cons.2 ⟨⟨.number 9, by decide +kernel⟩,
        List.forall_mem_singleton.2 ⟨.word "q".toList, by decide +kernel⟩⟩⟩
  have hsorted : sortNames Text.maxDigits ["10".toList, "9".toList, "q".toList] =
      .ok orderlyDescription.names :=
    sortNames_eq_ok_iff.2
      ⟨hkeys, mergeSort_eq_of_perm (by decide) (by decide +kernel) (by decide +kernel)⟩
  have hvalue : read orderlyContent = .ok orderlyDescription :=
    bind_eq_ok_iff.2 ⟨_, hread, bind_eq_ok_iff.2 ⟨_, hsorted, by decide +kernel⟩⟩
  have hagree : Agree Eq (read orderlyContent) (read shuffledContent) :=
    (read_of_same_lines hlines hdistinct).1
  rw [hvalue] at hagree
  exact ⟨hlines, hdistinct, hvalue, hagree.eq_ok⟩

end Description

end FiniteState
