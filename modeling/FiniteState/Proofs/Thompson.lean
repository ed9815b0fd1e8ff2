import FiniteState.Proofs.Splicing
import FiniteState.Regex.Compilation

/-!
# Languages of Trees

What a tree means, and that its automaton accepts just that. The meaning is defined by recursion on
the tree, without automata. The automaton has the same recursion, so there is one case for each kind
of node, and each is a law of the combination that makes the automaton.

Of all combinations only the way around asks for more than one entry and one exit: were an edge to
enter the entry, the words on the way back to it would be accepted as well. In the automaton of a
tree nothing enters the entry and nothing leaves the exit, except for the one epsilon edge from the
exit back to the entry which a repetition adds. `Automaton.Gated` is this invariant.

## Main definitions

* `Regex.language`: The words that a tree stands for.
* `Regex.Supported`: All characters of a tree are symbols.
* `Automaton.Gated`: Nothing but an epsilon edge from the exit to the entry passes the ends.

## Theorems

* `mem_charactersBetween`: The characters of a range.
* `Automaton.Gated.language_option`: With a way around, the empty word is accepted too.
* `Regex.compile_eq_ok`: A tree with symbols only has an automaton, which accepts its language.
-/

namespace FiniteState

open scoped Computability

namespace Regex

mutual

/-- The words that a tree stands for. -/
def language : Regex → Language Char
  | character symbols => {word | ∃ c ∈ symbols, word = [c]}
  | characterSet ranges => {word | ∃ range ∈ ranges, ∃ c, range.1 ≤ c ∧ c ≤ range.2 ∧ word = [c]}
  | wildcard => {word | ∃ c, isSymbol c = true ∧ word = [c]}
  | missing => 0
  | concatenation parts => (languages parts).prod
  | alternation branches => (languages branches).sum
  | iteration body => body.language * body.language∗
  | optional body => 1 + body.language

/-- The languages of trees, from left to right. -/
def languages : List Regex → List (Language Char)
  | [] => []
  | node :: rest => node.language :: languages rest

end

mutual

/-- All characters of a tree, those between the ends of its ranges included, are symbols, and none
    is missing. -/
def Supported : Regex → Prop
  | character symbols => ∀ c ∈ symbols, isSymbol c = true
  | characterSet ranges => ∀ range ∈ ranges, ∀ c, range.1 ≤ c → c ≤ range.2 → isSymbol c = true
  | wildcard => True
  | missing => False
  | concatenation parts => SupportedAll parts
  | alternation branches => SupportedAll branches
  | iteration body => body.Supported
  | optional body => body.Supported

/-- All characters of trees are symbols. -/
def SupportedAll : List Regex → Prop
  | [] => True
  | node :: rest => node.Supported ∧ SupportedAll rest

end

end Regex

namespace Automaton

/-- An automaton from state 0 to its last state, which nothing enters or leaves but an epsilon edge
    from the last state back to state 0. -/
structure Gated (A : Automaton) : Prop where
  wellFormed : A.WellFormed
  two_le_size : 2 ≤ A.size
  starting_eq : A.starting = .ofList [0]
  final_eq : A.final = .ofList [A.size - 1]
  eq_of_target : ∀ e ∈ A.edges, e.target = 0 → e = .epsilon (A.size - 1) 0
  eq_of_source : ∀ e ∈ A.edges, e.source = A.size - 1 → e = .epsilon (A.size - 1) 0

namespace Gated

variable {A B : Automaton} {word : List Char}

theorem ends_eq (h : A.Gated) : A.ends = .ok ⟨0, A.size - 1⟩ := by
  rw [ends_eq_ok_iff, h.starting_eq, h.final_eq]
  exact ⟨StateSet.toList_singleton _, StateSet.toList_singleton _⟩

/-- A path from the exit stays there, or takes the gate first and goes on from the entry. -/
theorem path_of_path_exit (h : A.Gated) {t : Nat} (hpath : A.Path (A.size - 1) word t) :
    (t = A.size - 1 ∧ word = []) ∨ A.Path 0 word t := by
  generalize hexit : A.size - 1 = exit at hpath
  cases hpath with
  | nil => exact Or.inl ⟨rfl, rfl⟩
  | cons edge rest =>
    have hgate := h.eq_of_source _ edge hexit.symm
    simp only [Edge.epsilon, Edge.mk.injEq] at hgate
    rcases hgate with ⟨-, rfl, rfl⟩
    exact Or.inr rest

/-- A path to the entry starts there and spells nothing, or it takes the gate last and has come to
    the exit before. -/
theorem path_of_path_entry (h : A.Gated) {s : Nat} (hpath : A.Path s word 0) :
    (s = 0 ∧ word = []) ∨ A.Path s word (A.size - 1) := by
  -- The induction is on the path, and the edge that enters state 0 is the last one.
  generalize hentry : 0 = entry at hpath
  induction hpath with
  | nil => exact Or.inl ⟨rfl, rfl⟩
  | @cons s m t label word edge _ ih =>
    rcases ih hentry with ⟨hm, rfl⟩ | hrest
    · have hgate := h.eq_of_target _ edge (hm.trans hentry.symm)
      simp only [Edge.epsilon, Edge.mk.injEq] at hgate
      rcases hgate with ⟨rfl, -, rfl⟩
      exact Or.inr (FiniteState.Path.nil _)
    · exact Or.inr (FiniteState.Path.cons edge hrest)

/-- A path at the entry spells an accepted word, or nothing. -/
theorem eq_nil_or_mem_language (h : A.Gated) (hpath : A.Path 0 word 0) :
    word = [] ∨ word ∈ A.language := by
  rw [mem_language_iff_path h.ends_eq]
  exact (h.path_of_path_entry hpath).imp_left And.right

/-- The way around adds the empty word and nothing else. -/
theorem language_option (h : A.Gated) (hB : A.option = .ok B) :
    B.language = 1 + A.language := by
  have hne : 0 ≠ A.size - 1 := by
    have hsize := h.two_le_size
    omega
  ext word
  rw [mem_language_option h.ends_eq hB, Language.mem_add, Language.mem_one]
  constructor
  · intro hpath
    rcases hpath with hword | ⟨u, loops, v, rfl, hu, hloops, hv⟩
    · exact Or.inr hword
    · -- Each piece from the exit to the entry is a piece from the entry to the entry.
      have haround : A.Path 0 loops.flatten 0 := by
        clear hv
        induction loops with
        | nil => exact FiniteState.Path.nil 0
        | cons loop rest ih =>
          have hrest := ih fun other hother => hloops other (List.mem_cons_of_mem _ hother)
          rcases h.path_of_path_exit (hloops loop List.mem_cons_self) with ⟨heq, _⟩ | hloop
          · exact absurd heq hne
          · exact hloop.append hrest
      -- The last piece is empty or a way from the entry on.
      rcases h.path_of_path_exit hv with ⟨-, rfl⟩ | hlast
      · rw [List.append_nil]
        exact h.eq_nil_or_mem_language (hu.append haround)
      · exact Or.inr ((mem_language_iff_path h.ends_eq).2 ((hu.append haround).append hlast))
  · intro hpath
    rcases hpath with rfl | hword
    · exact Or.inr ⟨[], [], [], rfl, FiniteState.Path.nil _, by simp, FiniteState.Path.nil _⟩
    · exact Or.inl hword

/-- An epsilon edge that is the gate, or leaves and enters other states, keeps the invariant. -/
theorem addEdge (h : A.Gated) {s t : Nat} (hs : s < A.size) (ht : t < A.size)
    (hgate : (s = A.size - 1 ∧ t = 0) ∨ (s ≠ A.size - 1 ∧ t ≠ 0)) :
    (A.addEdge (.epsilon s t)).Gated := by
  have hwell : (A.addEdge (.epsilon s t)).WellFormed :=
    h.wellFormed.addEpsilon hs ht
  -- At the ends the new edge is the gate itself, or it is not there at all.
  refine ⟨hwell, h.two_le_size, h.starting_eq, h.final_eq, ?_, ?_⟩ <;> intro e he <;>
    rcases mem_edges_addEdge.1 he with rfl | he
  · rcases hgate with ⟨rfl, rfl⟩ | ⟨-, hne⟩
    · exact fun _ => rfl
    · exact fun heq => absurd heq hne
  · exact h.eq_of_target e he
  · rcases hgate with ⟨rfl, rfl⟩ | ⟨hne, -⟩
    · exact fun _ => rfl
    · exact fun heq => absurd heq hne
  · exact h.eq_of_source e he

theorem option (h : A.Gated) (hB : A.option = .ok B) : B.Gated := by
  have hsize := h.two_le_size
  have hfirst : 0 < A.size := by omega
  have hlast : A.size - 1 < A.size := by omega
  have hne : 0 ≠ A.size - 1 := by omega
  rw [option_eq h.ends_eq, Except.ok.injEq] at hB
  rw [← hB]
  exact h.addEdge hfirst hlast (Or.inr ⟨hne, hne.symm⟩)

theorem iteration (h : A.Gated) (hB : A.iteration = .ok B) : B.Gated := by
  have hsize := h.two_le_size
  have hfirst : 0 < A.size := by omega
  have hlast : A.size - 1 < A.size := by omega
  rw [iteration_eq h.ends_eq, Except.ok.injEq] at hB
  rw [← hB]
  exact h.addEdge hlast hfirst (Or.inl ⟨rfl, rfl⟩)

/-- In copies with links between them, nothing enters the entry and nothing leaves the exit. -/
theorem enclose {parts : List (Automaton × Ends)} (hparts : Splice.Located parts)
    {links : List Edge} (hlinks : ∀ e ∈ links, Splice.Link 1 (Splice.ofParts 1 parts).size 0 e) :
    ((Splice.ofParts 1 parts).enclose links).Gated := by
  have hle := Splice.le_size_ofParts 1 parts
  -- All edges of copies lie between the gates, and links keep to them.
  have hlt : ∀ e ∈ ((Splice.ofParts 1 parts).enclose links).edges,
      e.source < (Splice.ofParts 1 parts).size ∧ 0 < e.target := by
    intro e he
    rcases Splice.mem_edges_enclose.1 he with hcopy | hlink
    · have hlt := Splice.mem_edges_lt hparts hcopy
      omega
    · have hsource := (hlinks e hlink).source
      have htarget := (hlinks e hlink).target
      omega
  refine ⟨Splice.wellFormed_enclose hparts hlinks, Nat.succ_le_succ hle, rfl, rfl, ?_, ?_⟩
  · intro e he heq
    exact absurd heq (hlt e he).2.ne'
  · intro e he heq
    exact absurd heq (hlt e he).1.ne

end Gated

variable {members : List Automaton} {B : Automaton}

theorem gated_concatenation (hmembers : ∀ A ∈ members, A.WellFormed)
    (h : concatenation members = .ok B) : B.Gated := by
  rcases concatenation_eq_ok_iff.1 h with ⟨parts, rfl, hends, rfl⟩
  have hparts := Splice.Located.of_members hmembers hends
  exact Gated.enclose hparts fun e he => Splice.link_of_mem_row hparts (le_refl _) he

theorem gated_disjunction (hmembers : ∀ A ∈ members, A.WellFormed)
    (h : disjunction members = .ok B) : B.Gated := by
  rcases disjunction_eq_ok_iff.1 h with ⟨parts, rfl, hends, rfl⟩
  have hparts := Splice.Located.of_members hmembers hends
  exact Gated.enclose hparts fun e he => Splice.link_of_mem_side hparts (le_refl _) he

end Automaton

/-- The characters of a range of symbols are those between its ends. If the ends are exchanged there
    are none. -/
theorem mem_charactersBetween {low high c : Char}
    (h : ∀ d, low ≤ d → d ≤ high → isSymbol d = true) :
    c ∈ charactersBetween low high ↔ low ≤ c ∧ c ≤ high := by
  have hle : ∀ a b : Char, a ≤ b ↔ a.toNat ≤ b.toNat := fun _ _ => UInt32.le_iff_toNat_le
  simp only [charactersBetween, List.mem_map, List.mem_range'_1, hle]
  constructor
  · intro hmem
    rcases hmem with ⟨code, hcode, rfl⟩
    have hhigh := isSymbol_eq_true_iff.1 (h high ((hle _ _).2 (by omega)) ((hle _ _).2 le_rfl))
    have hcode' := toNat_ofNat (Or.inl (by omega) : code.isValidChar)
    omega
  · intro hc
    exact ⟨c.toNat, by omega, Char.ofNat_toNat c⟩

/-- A range of symbols passes the check. -/
theorem checkSymbols_charactersBetween {low high : Char}
    (h : ∀ d, low ≤ d → d ≤ high → isSymbol d = true) :
    checkSymbols (charactersBetween low high) = .ok (charactersBetween low high) := by
  refine checkSymbols_eq_ok_iff.2 ⟨rfl, fun c hc => ?_⟩
  have hbounds := (mem_charactersBetween h).1 hc
  exact h c hbounds.1 hbounds.2

section Leaves

variable {characters : List Char}

theorem mem_edges_singleEdges {e : Edge} :
    e ∈ (singleEdges characters).edges ↔ ∃ c ∈ characters, e = ⟨0, 1, some c⟩ := by
  simp only [singleEdges, Edge.mem_ofList, List.mem_map, eq_comm]

/-- All edges of a leaf lead from its entry to its exit. -/
theorem ends_of_mem_singleEdges {e : Edge} (he : e ∈ (singleEdges characters).edges) :
    e.source = 0 ∧ e.target = 1 := by
  rcases mem_edges_singleEdges.1 he with ⟨c, _, rfl⟩
  exact ⟨rfl, rfl⟩

theorem gated_singleEdges (hcharacters : ∀ c ∈ characters, isSymbol c = true) :
    (singleEdges characters).Gated := by
  -- There are two states, and every edge goes from the first to the second.
  have hwell : (singleEdges characters).WellFormed := by
    refine ⟨?_, ?_, ?_, ?_, ?_⟩
    · intro s hs
      rw [List.mem_singleton.1 (StateSet.mem_ofList.1 hs)]
      exact Nat.zero_lt_two
    · intro s hs
      rw [List.mem_singleton.1 (StateSet.mem_ofList.1 hs)]
      exact Nat.one_lt_two
    · intro e he
      rw [(ends_of_mem_singleEdges he).1]
      exact Nat.zero_lt_two
    · intro e he
      rw [(ends_of_mem_singleEdges he).2]
      exact Nat.one_lt_two
    · intro e he d hd
      rcases mem_edges_singleEdges.1 he with ⟨c, hc, rfl⟩
      obtain rfl := Option.some.inj hd
      exact hcharacters c hc
  refine ⟨hwell, le_refl 2, rfl, rfl, ?_, ?_⟩
  · intro e he heq
    exact absurd ((ends_of_mem_singleEdges he).2.symm.trans heq) Nat.one_ne_zero
  · intro e he heq
    exact absurd ((ends_of_mem_singleEdges he).1.symm.trans heq) Nat.zero_ne_one

/-- A leaf accepts its characters, each as a word by itself. -/
theorem language_singleEdges :
    (singleEdges characters).language = {word | ∃ c ∈ characters, word = [c]} := by
  have hends : (singleEdges characters).ends = .ok ⟨0, 1⟩ :=
    Automaton.ends_eq_ok_iff.2 ⟨StateSet.toList_singleton 0, StateSet.toList_singleton 1⟩
  ext word
  rw [Automaton.mem_language_iff_path hends]
  constructor
  · intro h
    rcases h with _ | ⟨edge, rest⟩
    rcases mem_edges_singleEdges.1 edge with ⟨c, hc, heq⟩
    simp only [Edge.mk.injEq] at heq
    rcases heq with ⟨-, rfl, rfl⟩
    -- Nothing leaves the exit of a leaf, so the path ends with its first edge.
    have hexit : ∀ e ∈ (singleEdges characters).edges, e.source ≠ 1 := by
      intro e he
      rw [(ends_of_mem_singleEdges he).1]
      exact Nat.zero_ne_one
    rcases rest.eq_of_not_left hexit with ⟨-, rfl⟩
    exact ⟨c, hc, rfl⟩
  · intro h
    rcases h with ⟨c, hc, rfl⟩
    exact Automaton.path_of_edge (mem_edges_singleEdges.2 ⟨c, hc, rfl⟩)

end Leaves

namespace Regex

variable {ranges : List (Char × Char)}

theorem mem_flatten_charactersBetween (h : (characterSet ranges).Supported) {c : Char} :
    c ∈ (ranges.map fun range => charactersBetween range.1 range.2).flatten ↔
      ∃ range ∈ ranges, range.1 ≤ c ∧ c ≤ range.2 := by
  rw [← List.flatMap_def, List.mem_flatMap]
  refine exists_congr fun range => and_congr_right fun hrange => ?_
  exact mem_charactersBetween (h range hrange)

theorem compile_characterSet (h : (characterSet ranges).Supported) :
    (characterSet ranges).compile =
      .ok (singleEdges (ranges.map fun range => charactersBetween range.1 range.2).flatten) := by
  have hcheck : (ranges.mapM fun range => checkSymbols (charactersBetween range.1 range.2))
      = .ok (ranges.map fun range => charactersBetween range.1 range.2) := by
    rw [mapM_eq_ok_iff, List.forall₂_map_right_iff, List.forall₂_same]
    exact fun range hrange => checkSymbols_charactersBetween (h range hrange)
  rw [compile, hcheck]
  rfl

mutual

/-- The automaton of a tree with symbols only accepts the language of the tree. -/
theorem compile_eq_ok : ∀ node : Regex, node.Supported →
    ∃ A, node.compile = .ok A ∧ A.Gated ∧ A.language = node.language
  | character symbols, h => by
    have hcheck := checkSymbols_eq_ok_iff.2 ⟨rfl, h⟩
    refine ⟨singleEdges symbols, ?_, gated_singleEdges h, language_singleEdges⟩
    rw [compile, hcheck]
    rfl
  | characterSet ranges, h => by
    refine ⟨_, compile_characterSet h, gated_singleEdges fun c hc => ?_, ?_⟩
    · rcases (mem_flatten_charactersBetween h).1 hc with ⟨range, hrange, hlow, hhigh⟩
      exact h range hrange c hlow hhigh
    · rw [language_singleEdges, language]
      ext word
      constructor
      · intro h
        rcases h with ⟨c, hc, rfl⟩
        rcases (mem_flatten_charactersBetween h).1 hc with ⟨range, hrange, hlow, hhigh⟩
        exact ⟨range, hrange, c, hlow, hhigh, rfl⟩
      · intro h
        rcases h with ⟨range, hrange, c, hlow, hhigh, rfl⟩
        exact ⟨c, (mem_flatten_charactersBetween h).2 ⟨range, hrange, hlow, hhigh⟩, rfl⟩
  | wildcard, _ => by
    refine ⟨singleEdges symbols, rfl, gated_singleEdges fun c => mem_symbols.1, ?_⟩
    rw [language_singleEdges, language]
    simp only [mem_symbols]
    rfl
  | missing, h => absurd h id
  | concatenation parts, h => by
    rcases compileAll_eq_ok parts h with ⟨members, hmembers, hgated, hlanguages⟩
    rcases (Automaton.exists_combination fun B hB => ⟨_, (hgated B hB).ends_eq⟩).1 with ⟨A, hA⟩
    have hwell : ∀ B ∈ members, B.WellFormed := fun B hB => (hgated B hB).wellFormed
    refine ⟨A, ?_, Automaton.gated_concatenation hwell hA, ?_⟩
    · rw [compile, hmembers]
      exact hA
    · rw [Automaton.language_concatenation hwell hA, hlanguages, language]
  | alternation branches, h => by
    rcases compileAll_eq_ok branches h with ⟨members, hmembers, hgated, hlanguages⟩
    rcases (Automaton.exists_combination fun B hB => ⟨_, (hgated B hB).ends_eq⟩).2 with ⟨A, hA⟩
    have hwell : ∀ B ∈ members, B.WellFormed := fun B hB => (hgated B hB).wellFormed
    refine ⟨A, ?_, Automaton.gated_disjunction hwell hA, ?_⟩
    · rw [compile, hmembers]
      exact hA
    · rw [Automaton.language_disjunction hwell hA, hlanguages, language]
  | iteration body, h => by
    rcases compile_eq_ok body h with ⟨A, hA, hgated, hlanguage⟩
    have hB := Automaton.iteration_eq hgated.ends_eq
    refine ⟨_, ?_, hgated.iteration hB, ?_⟩
    · rw [compile, hA]
      exact hB
    · rw [Automaton.language_iteration hgated.ends_eq hB, hlanguage, language]
  | optional body, h => by
    rcases compile_eq_ok body h with ⟨A, hA, hgated, hlanguage⟩
    have hB := Automaton.option_eq hgated.ends_eq
    refine ⟨_, ?_, hgated.option hB, ?_⟩
    · rw [compile, hA]
      exact hB
    -- Only here it matters that nothing but the gate passes the ends.
    · rw [hgated.language_option hB, hlanguage, language]

theorem compileAll_eq_ok : ∀ nodes : List Regex, SupportedAll nodes →
    ∃ members, compileAll nodes = .ok members ∧ (∀ A ∈ members, A.Gated) ∧
      members.map Automaton.language = languages nodes
  | [], _ => ⟨[], rfl, by simp, rfl⟩
  | node :: rest, h => by
    rcases compile_eq_ok node h.1 with ⟨A, hA, hgated, hlanguage⟩
    rcases compileAll_eq_ok rest h.2 with ⟨members, hmembers, hrest, hlanguages⟩
    refine ⟨A :: members, ?_, List.forall_mem_cons.2 ⟨hgated, hrest⟩, ?_⟩
    · rw [compileAll, hA, hmembers]
      rfl
    · rw [List.map_cons, hlanguage, hlanguages, languages]

end

end Regex

end FiniteState
