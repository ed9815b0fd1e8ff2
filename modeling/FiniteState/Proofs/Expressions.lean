import FiniteState.Proofs.Refinement
import FiniteState.Proofs.Stages

/-!
# Expressions in Stores

A regular expression in a store is the matcher of its pattern: its automaton is the one that the
pattern is built into, and the table that it walks by is that of the automaton. It is made in the
store, leaf by leaf and combination by combination, and fails where the pattern cannot be read.

In a leaf, the characters are connected one after another, and the first that is no symbol is
reported. The matcher checks all of them first, with the same result. The automata of the children
of a node are made one after another, so those made first have to survive the making of the others.

## Theorems

* `Regex.connects_connectCharacters`: Connecting the characters of a leaf.
* `Regex.tracks_construct`: The automaton of a tree.
* `Pattern.tracks_construct`, `Pattern.tracks_build`: The automata of a pattern.
* `Expression.tracks_ofPattern`: A regular expression is the matcher of its pattern.
* `Expression.run_eq`: It answers as the matcher does.
-/

namespace FiniteState

namespace Regex

/-- The edge of a leaf with a character. -/
def leafEdge (c : Char) : Edge :=
  ⟨0, 1, some c⟩

theorem checkEdge_leaf (c : Char) : Automaton.checkEdge 2 0 (String.singleton c) 1 =
    if isSymbol c then .ok (leafEdge c) else .error (.invalidSymbol (String.singleton c)) := by
  have hlabel : Automaton.checkLabel (String.singleton c) =
      if isSymbol c then .ok (some c) else .error (.invalidSymbol (String.singleton c)) := by
    rw [Automaton.checkLabel, String.toList_singleton c]
  rw [Automaton.checkEdge, hlabel]
  cases isSymbol c <;> rfl

theorem mapM_checkEdge_leaf (characters : List Char) :
    (characters.map fun c => ((0 : Int), String.singleton c, (1 : Int))).mapM
      (fun (source, label, target) => Automaton.checkEdge 2 source label target) =
        (checkSymbols characters).map (List.map leafEdge) := by
  rw [checkSymbols]
  cases hfind : characters.find? fun c => !isSymbol c with
  -- The ends of the edges exist, so it is up to the labels alone whether they pass.
  | none =>
    rw [List.find?_eq_none] at hfind
    refine mapM_eq_ok_iff.2 ?_
    rw [List.forall₂_map_left_iff, List.forall₂_map_right_iff, List.forall₂_same]
    intro c hc
    exact (checkEdge_leaf c).trans (if_pos (by simpa using hfind c hc))
  | some c =>
    -- The characters before the first one that is no symbol pass, and this one does not.
    rcases List.find?_eq_some_iff_append.1 hfind with ⟨hc, before, after, rfl, hbefore⟩
    rw [List.map_append, List.map_cons]
    refine mapM_eq_error (fun triple htriple => ?_) ?_
    · rcases List.mem_map.1 htriple with ⟨d, hd, rfl⟩
      exact ⟨leafEdge d, (checkEdge_leaf d).trans (if_pos (by simpa using hbefore d hd))⟩
    · exact (checkEdge_leaf c).trans (if_neg (by simpa using hc))

theorem connects_connectCharacters (characters : List Char) :
    Stored.Connects 2 (connectCharacters characters)
      ((checkSymbols characters).map (List.map leafEdge)) := by
  rw [← mapM_checkEdge_leaf]
  exact Stored.connects_connectAll 2 _

theorem connects_connectRanges (ranges : List (Char × Char)) :
    Stored.Connects 2
      (ranges.forM fun range => connectCharacters (charactersBetween range.1 range.2))
      (Except.map (List.map leafEdge) do
        return (← ranges.mapM fun range =>
          checkSymbols (charactersBetween range.1 range.2)).flatten) := by
  have hranges := @Stored.connects_forM 2 _ ranges _ _ fun range _ =>
    connects_connectCharacters (charactersBetween range.1 range.2)
  rw [mapM_map_eq] at hranges
  cases hcheck : ranges.mapM fun range => checkSymbols (charactersBetween range.1 range.2) with
  | error fault =>
    rw [hcheck] at hranges
    exact hranges
  | ok characters =>
    -- What is checked range by range is connected in one row.
    have hflatten : (characters.map (List.map leafEdge)).flatten =
        characters.flatten.map leafEdge := List.map_flatten.symm
    rw [hcheck] at hranges
    change Stored.Connects 2 _ (.ok (characters.flatten.map leafEdge))
    rw [← hflatten]
    exact hranges

/-- A leaf has the edges that are connected in it. -/
theorem tracks_constructLeaf {edges : Stored.Action Unit}
    {outcome : Except Automaton.Fault (List Char)}
    (hedges : Maintains Stored.Consistent edges fun _ => True)
    (hconnects : Stored.Connects 2 edges (outcome.map (List.map leafEdge))) (store : Store) :
    Tracks Address.Holds (do return singleEdges (← outcome)) (constructLeaf edges store) := by
  -- The two states and their marks are in order, so only the labels can be refused.
  have hcreated : Automaton.create 2 [0] [1] = .ok ⟨2, .ofList [0], .ofList [1], ∅⟩ :=
    @Automaton.create_eq_ok 2 [0] [1] (by simp) (by simp)
  have hcreate := Store.tracks_create 2 [0] [1] store
  rw [hcreated] at hcreate
  rcases hcreate.exists_ok with ⟨a, after, hok, ha⟩
  rw [constructLeaf, bind_apply_of_ok hok]
  have hedit := Store.tracks_edit ha hedges hconnects
  cases outcome with
  | error fault =>
    rcases hedit.exists_error with ⟨later, hfault⟩
    rw [bind_apply_of_error hfault]
    exact .error
  | ok characters =>
    rcases hedit.exists_ok with ⟨_, later, hlater, hwell, rfl⟩
    rw [bind_apply_of_ok hlater]
    rw [Automaton.addEdges_of_edges_eq_empty rfl] at hwell ⊢
    exact .ok (ha.put_self hwell)

mutual

theorem tracks_construct : ∀ (node : Regex) (store : Store),
    Tracks Address.Holds node.compile (node.construct store)
  | character characters, store => by
    rw [compile, construct]
    exact tracks_constructLeaf (maintains_connectCharacters characters)
      (connects_connectCharacters characters) store
  | characterSet ranges, store => by
    have hleaf := tracks_constructLeaf (maintains_forM fun range _ =>
      maintains_connectCharacters _) (connects_connectRanges ranges) store
    rw [compile, construct]
    -- The ranges are checked one after another, and so they are connected.
    simpa only [bind_assoc, pure_bind] using hleaf
  | wildcard, store => by
    have hsymbols : checkSymbols symbols = .ok symbols :=
      checkSymbols_eq_ok_iff.2 ⟨rfl, fun c hc => mem_symbols.1 hc⟩
    have hleaf := tracks_constructLeaf (maintains_connectCharacters symbols)
      (connects_connectCharacters symbols) store
    rw [hsymbols] at hleaf
    rw [compile, construct]
    exact hleaf
  | missing, store => by
    rw [compile, construct]
    exact @tracks_constructLeaf _ (.error .missingCharacter) (maintains_throw _)
      (fun A _ => Or.inr ⟨_, A, rfl, rfl⟩) store
  | concatenation parts, store => by
    rw [compile, construct]
    exact (tracks_constructAll parts store).bind fun _ _ _ h => Store.tracks_concatenation h
  | alternation branches, store => by
    rw [compile, construct]
    exact (tracks_constructAll branches store).bind fun _ _ _ h => Store.tracks_disjunction h
  | iteration body, store => by
    rw [compile, construct]
    exact (tracks_construct body store).bind fun _ _ _ h => Store.tracks_iteration h
  | optional body, store => by
    rw [compile, construct]
    exact (tracks_construct body store).bind fun _ _ _ h => Store.tracks_option h

theorem tracks_constructAll : ∀ (nodes : List Regex) (store : Store),
    Tracks (fun members after automata =>
        List.Forall₂ (fun a A => a.Holds after A) members automata)
      (compileAll nodes) (constructAll nodes store)
  | [], store => by
    rw [compileAll, constructAll]
    exact tracks_pure .nil
  | node :: rest, store => by
    rw [compileAll, constructAll]
    refine (tracks_construct node store).bind fun a before A ha => ?_
    -- Making the others leaves the first automaton alone.
    refine ((tracks_constructAll rest before).maintaining (maintains_constructAll rest)
      (Store.Keeps.refl before)).bind fun members after automata h => ?_
    rcases h with ⟨hmembers, hkeeps, -⟩
    exact tracks_pure (.cons (ha.keep hkeeps) hmembers)

end

end Regex

namespace Pattern

theorem tracks_construct (pattern : List Char) (store : Store) :
    Tracks Address.Holds (thompson pattern) (construct pattern store) := by
  rw [thompson, construct]
  cases parse pattern with
  | error error => exact .error
  | ok node => exact (Regex.tracks_construct node store).adapt _

theorem tracks_build (pattern : List Char) (store : Store) :
    Tracks Address.Holds (Matcher.build pattern) (build pattern store) := by
  refine (tracks_construct pattern store).bind fun a after A ha => ?_
  exact (Store.tracks_minimize ha).adapt Fault.automaton

end Pattern

namespace Expression

/-- A regular expression is a matcher in a store: it has the pattern of the matcher, it refers to
    the automaton, and it has taken its start and its table from that. -/
structure Holds (e : Expression) (store : Store) (m : Matcher) : Prop where
  pattern_eq : e.pattern = m.pattern
  automaton : e.automaton.Holds store m.automaton
  start_eq : e.start = m.automaton.starting.toList.head?
  table_eq : e.table = Matcher.table m.automaton

theorem Holds.keep {e : Expression} {store later : Store} {m : Matcher} (h : e.Holds store m)
    (hkeeps : store.Keeps later) : e.Holds later m :=
  ⟨h.pattern_eq, h.automaton.keep hkeeps, h.start_eq, h.table_eq⟩

/-- A regular expression does not change when another cell than that of its automaton does. -/
theorem Holds.put_of_ne {e : Expression} {store : Store} {m : Matcher} (h : e.Holds store m)
    {a : Address} (hne : a.index ≠ e.automaton.index) (A : Stored) : e.Holds (store.put a A) m :=
  ⟨h.pattern_eq, h.automaton.put_of_ne hne A, h.start_eq, h.table_eq⟩

theorem tracks_ofPattern (pattern : List Char) (store : Store) :
    Tracks Holds (Matcher.ofPattern pattern) (ofPattern pattern store) := by
  refine (Pattern.tracks_build pattern store).bind fun a after A ha => ?_
  change Tracks Holds (.ok ⟨pattern, A⟩) (.ok ⟨pattern, a, (after.cell a).starting.toList.head?,
    Matcher.table (after.cell a).toAutomaton⟩ after)
  rw [ha.cell_eq]
  exact .ok ⟨rfl, ha, rfl, rfl⟩

/-- A regular expression answers as the matcher does. -/
theorem Holds.run_eq {e : Expression} {store : Store} {m : Matcher} (h : e.Holds store m)
    (text : List Char) : e.run store text = m.run text := by
  rw [run, Matcher.run, h.start_eq, h.table_eq, h.automaton.cell_eq]
  cases m.automaton.starting.toList <;> rfl

end Expression

end FiniteState
