import FiniteState.Proofs.Adoption
import FiniteState.Proofs.Endpoints

/-!
# The Order of Sets

A reader of descriptions gathers names, marks and edges in sets, and goes through these in an order
of its own. Which contents describe automata does not depend on that order, and neither does which
names there are. What can depend on it is the numbers of the states: `7` and `07` are sorted by the
same value, so whichever of them the set yields first comes first.

So a file is loaded alike by all readers, as long as in each of its descriptions the numerals have
different values. Otherwise the automata of the descriptions still have the same names and sizes.
Warnings may blame another fault, since a content with several of them is refused for the first one
that is met.

## Main definitions

* `Description.IsReader`: A reader that goes through the sets in some order.
* `Loaded.Described`: The descriptions in a content.
* `Loaded.WarnsAlike`: Warnings that differ in the fault at most.
* `Loaded.Alike`: The same has been loaded, except for the automata, which are related.

## Theorems

* `Description.IsReader.agree_size`: All readers find the same names.
* `Description.exists_reads_ne`: Two numerals with the same value may come in either order.
* `Loaded.alike_ofContentBy`: A content is loaded alike if its descriptions are read alike.
* `Loaded.alike_of_isReader`: What is loaded does not depend on the order of sets.
-/

namespace FiniteState

namespace Description

variable {limit : Nat} {content : List Char}
  {reader reader' : List Char → Except Fault Description}

/-- A reader reads every content, and goes through the sets in an order of its own. -/
def IsReader (limit : Nat) (reader : List Char → Except Fault Description) : Prop :=
  ∀ content, Reads limit content (reader content)

theorem isReader_readWithin (limit : Nat) : IsReader limit (readWithin limit) :=
  reads_readWithin limit

theorem IsReader.wellFormed (h : IsReader limit reader) {described : Description}
    (hread : reader content = .ok described) : described.automaton.WellFormed := by
  rcases (h content).exists_assemble hread with ⟨statements, -, inventory, -, hassemble⟩
  exact Inventory.wellFormed_of_assemble hassemble

/-- All readers find the same names in a content, and as many states, if they find any. -/
theorem IsReader.agree_size (h : IsReader limit reader) (h' : IsReader limit reader')
    (content : List Char) :
    Agree (fun described described' => described.names.Perm described'.names ∧
      described.automaton.size = described'.automaton.size) (reader content) (reader' content) := by
  have hboth := (h content).exists_iff.trans (h' content).exists_iff.symm
  cases hread : reader content with
  | error fault =>
    cases hread' : reader' content with
    | error fault' => exact .faults fault fault'
    | ok described' =>
      rcases hboth.2 ⟨described', hread'⟩ with ⟨described, hdescribed⟩
      exact nomatch hread.symm.trans hdescribed
  | ok described =>
    rcases hboth.1 ⟨described, hread⟩ with ⟨described', hread'⟩
    rcases (h content).exists_assemble hread with
      ⟨statements, hstatements, inventory, hlists, hassemble⟩
    rcases (h' content).exists_lists hstatements with ⟨inventory', hlists', hassemble'⟩
    rcases names_of_assemble hassemble with ⟨hperm, hsize⟩
    rcases names_of_assemble (hassemble'.trans hread') with ⟨hperm', hsize'⟩
    -- Both lists hold the names that the statements mention, each of them once.
    have hnames : described.names.Perm described'.names :=
      hperm.trans ((hlists.perm_names hlists' fun _ => Iff.rfl).trans hperm'.symm)
    rw [hread']
    exact .values ⟨hnames, by rw [hsize, hsize', hnames.length_eq]⟩

/-- All readers agree on contents whose numerals have different values. -/
theorem IsReader.agree (h : IsReader limit reader) (h' : IsReader limit reader')
    (hdistinct : Unambiguous limit content) : Agree Eq (reader content) (reader' content) :=
  agree_of_reads (fun _ => Iff.rfl) hdistinct (h content) (h' content)

/-- Two numerals with the same value may come in either order. -/
theorem exists_reads_ne : ∃ described described', described ≠ described' ∧
    Reads Text.maxDigits "7 a 07".toList (.ok described) ∧
      Reads Text.maxDigits "7 a 07".toList (.ok described') := by
  have hread : (significantLines "7 a 07".toList).mapM (readStatement Text.maxDigits) =
      .ok [.edge "7".toList (some 'a') "07".toList] := by decide +kernel
  have hseven : ∀ name ∈ ["7".toList, "07".toList],
      nameKey Text.maxDigits name = .ok (.number 7) := by decide +kernel
  have hmade : ∀ names : List (List Char), names.Perm ["7".toList, "07".toList] →
      ∃ A, Reads Text.maxDigits "7 a 07".toList (.ok ⟨A, names⟩) := by
    intro names hperm
    let inventory : Inventory := ⟨names, [], [], [("7".toList, some 'a', "07".toList)]⟩
    have hlists : inventory.Lists [.edge "7".toList (some 'a') "07".toList] := by
      refine ⟨hperm.nodup_iff.2 (by decide), fun name => ?_, ?_, ?_, ?_⟩
      · simp [inventory, hperm.mem_iff, Statement.names]
      all_goals simp [inventory, Statement.startingNames, Statement.acceptingNames,
        Statement.edge?, eq_comm]
    have hkey : ∀ name ∈ names, nameKey Text.maxDigits name = .ok (.number 7) :=
      fun name hname => hseven name (hperm.mem_iff.1 hname)
    -- All names have the same key, so sorting them leaves them as they are.
    have hpairwise : names.Pairwise fun v w => precedes Text.maxDigits v w = true := by
      refine List.pairwise_of_forall_mem_list fun v hv w hw => ?_
      rw [precedes, keyOf_eq (hkey v hv), keyOf_eq (hkey w hw)]
      decide
    have hsorted : sortNames Text.maxDigits names = .ok names :=
      sortNames_eq_ok_iff.2
        ⟨fun name hname => ⟨_, hkey name hname⟩, List.mergeSort_of_pairwise hpairwise⟩
    have hnames : ∀ name ∈ inventory.names, name ∈ names := fun _ hname => hname
    rcases Inventory.exists_ofRelation_of_names hlists (by simp [inventory, isSymbol]) hnames with
      ⟨A, hA⟩
    have hassemble : inventory.assemble Text.maxDigits = .ok ⟨A, names⟩ :=
      bind_eq_ok_iff.2 ⟨names, hsorted, bind_eq_ok_iff.2 ⟨A, mapError_eq_ok_iff.2 hA, rfl⟩⟩
    exact ⟨A, hassemble ▸ .assembled hread hlists⟩
  rcases hmade ["7".toList, "07".toList] (.refl _) with ⟨A, hA⟩
  rcases hmade ["07".toList, "7".toList] (.swap _ _ _) with ⟨B, hB⟩
  refine ⟨_, _, fun heq => ?_, hA, hB⟩
  have hnames : ["7".toList, "07".toList] = ["07".toList, "7".toList] :=
    congrArg Description.names heq
  exact absurd hnames (by decide)

end Description

namespace Loaded

open Description

/-- A description in a content: a block if there are no sections, else the body of one of these. -/
inductive Described (content : List Char) : List Char → Prop
  | block {block : List Char} (hnone : sections content = []) (hother : isPattern content = false)
      (h : block ∈ blocks content) : Described content block
  | body {part : Section} (h : part ∈ sections content) (hmore : part.body ≠ [])
      (hother : isPattern part.body = false) : Described content part.body

/-- Warnings are the same, or about the same automaton. -/
inductive WarnsAlike : String → String → Prop
  | same (text : String) : WarnsAlike text text
  | automaton (name : String) (fault fault' : Fault) :
      WarnsAlike ("Warning: Failed to load automaton '" ++ name ++ "': " ++ fault.message)
        ("Warning: Failed to load automaton '" ++ name ++ "': " ++ fault'.message)

/-- The same has been loaded, except for the automata, which are related. -/
structure Alike (same : Automaton → Automaton → Prop) (loaded loaded' : Loaded) : Prop where
  automata : loaded.automata.Matches same loaded'.automata
  regexes_eq : loaded.regexes = loaded'.regexes
  warnings : List.Forall₂ WarnsAlike loaded.warnings loaded'.warnings

variable {same : Automaton → Automaton → Prop} {loaded loaded' : Loaded} {content : List Char}
  {reader reader' : List Char → Except Fault Description}

theorem alike_nothing : Alike same nothing nothing :=
  ⟨.nil, rfl, .nil⟩

theorem Alike.addOutcome {outcome outcome' : Except Fault Description}
    (h : Alike same loaded loaded') (name : String)
    (hagree : Agree (fun described described' => same described.automaton described'.automaton)
      outcome outcome') :
    Alike same (loaded.addOutcome name outcome) (loaded'.addOutcome name outcome') := by
  cases hagree with
  | faults fault fault' =>
    exact ⟨h.automata, h.regexes_eq, List.rel_append h.warnings (.cons (.automaton name _ _) .nil)⟩
  | values hsame => exact ⟨h.automata.insert hsame name, h.regexes_eq, h.warnings⟩

theorem Alike.addRegex (h : Alike same loaded loaded') (name warning : String)
    (content : List Char) :
    Alike same (loaded.addRegex name warning content) (loaded'.addRegex name warning content) := by
  unfold Loaded.addRegex
  cases matcherOf content with
  | ok m => exact ⟨h.automata, congrArg (·.insert name m) h.regexes_eq, h.warnings⟩
  | error fault =>
    exact ⟨h.automata, h.regexes_eq, List.rel_append h.warnings (.cons (.same _) .nil)⟩

theorem Alike.addSectionBy {part : Section} (h : Alike same loaded loaded')
    (hagree : part.body ≠ [] → isPattern part.body = false →
      Agree (fun described described' => same described.automaton described'.automaton)
        (reader part.body) (reader' part.body)) :
    Alike same (loaded.addSectionBy reader part) (loaded'.addSectionBy reader' part) := by
  unfold Loaded.addSectionBy
  dsimp only
  split_ifs with hempty hdetected
  · exact h
  · exact h.addRegex _ _ part.body
  · exact h.addOutcome _ (hagree (mt List.isEmpty_iff.2 hempty) (Bool.eq_false_iff.2 hdetected))

theorem Alike.foldl {α : Type} {add add' : Loaded → α → Loaded} {items : List α}
    (h : Alike same loaded loaded')
    (hadd : ∀ item ∈ items, ∀ loaded loaded', Alike same loaded loaded' →
      Alike same (add loaded item) (add' loaded' item)) :
    Alike same (items.foldl add loaded) (items.foldl add' loaded') := by
  induction items generalizing loaded loaded' with
  | nil => exact h
  | cons item items ih =>
    rcases List.forall_mem_cons.1 hadd with ⟨hitem, hitems⟩
    exact ih (hitem _ _ h) hitems

/-- A content is loaded alike by readers that agree on the descriptions in it. -/
theorem alike_ofContentBy (path : List Char)
    (hagree : ∀ text, Described content text →
      Agree (fun described described' => same described.automaton described'.automaton)
        (reader text) (reader' text)) :
    Alike same (ofContentBy reader path content) (ofContentBy reader' path content) := by
  unfold ofContentBy
  split
  next hnone =>
    split_ifs with hdetected
    · exact alike_nothing.addRegex _ _ content
    -- Every block is a description of the content, so the readers agree on it.
    · refine alike_nothing.foldl fun item hitem _ _ h => h.addOutcome _ (hagree _ ?_)
      exact .block hnone (Bool.eq_false_iff.2 hdetected) (List.fst_mem_of_mem_zipIdx hitem)
  next =>
    refine alike_nothing.foldl fun part hpart _ _ h => h.addSectionBy fun hmore hother => ?_
    exact hagree _ (.body hpart hmore hother)

/-- However the sets are gone through, the same names stand for automata of the same sizes, and for
    the same matchers, and the same automata give rise to warnings. The automata are the same if the
    numerals in each description have different values. -/
theorem alike_of_isReader (h : IsReader Text.maxDigits reader) (path content : List Char) :
    Alike (fun A A' => A.size = A'.size) (ofContentBy reader path content)
        (ofContent path content) ∧
      ((∀ text, Described content text → Unambiguous Text.maxDigits text) →
        Alike Eq (ofContentBy reader path content) (ofContent path content)) := by
  have h' : IsReader Text.maxDigits read := isReader_readWithin Text.maxDigits
  refine ⟨alike_ofContentBy path fun text _ => ?_, fun hdistinct =>
    alike_ofContentBy path fun text htext => ?_⟩
  · exact (h.agree_size h' text).imp fun _ _ hsame => hsame.2
  · exact (h.agree h' (hdistinct text htext)).imp fun _ _ => congrArg Description.automaton

/-- What is loaded is sound, whatever the order of sets. -/
theorem sound_of_isReader (h : IsReader Text.maxDigits reader) (path content : List Char) :
    (ofContentBy reader path content).Sound :=
  sound_ofContentBy (fun _ _ hread => h.wellFormed hread) path content

end Loaded

end FiniteState
