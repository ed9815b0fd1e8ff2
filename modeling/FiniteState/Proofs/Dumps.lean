import FiniteState.Automaton.Display
import FiniteState.Proofs.Decoding

/-!
# What a Dump Tells

A dump tells which edges an automaton has and which of the states at their ends are marked, and it
tells nothing else: states without edges do not show.

The symbols of the edges are written as they are. Among them are the line feed, which also stands
between the lines, the characters that arrows are made of, the star that marks states, the space and
the digits. What makes the lines legible nevertheless is that every arrow has five characters, so
the symbol is known by its place, and the arrow of an epsilon edge differs from all others in the
place behind it. A numeral ends at a mark, which is no digit. So it is known where a line ends, and
it does not matter that the dump may have more line feeds in it than those between its lines.

## Main definitions

* `Edge.Before`: An edge comes before another.
* `Shown`: What a line shows.

## Theorems

* `Edge.compare_eq_lt_iff`: The order of edges.
* `Shown.apart`: Lines are told apart.
* `Automaton.dump_eq_iff`: A dump tells its lines.
* `Automaton.dump_eq_dump_iff`: Dumps are equal if the edges and the marks at their ends are.
-/

namespace FiniteState

namespace Edge

/-- A label comes before another: epsilon before the symbols, and these by their codes. -/
def LabelBefore : Option Char → Option Char → Prop
  | none, some _ => True
  | some c, some d => c.toNat < d.toNat
  | _, none => False

/-- An edge comes before another: by its source, then by its target, then by its label. -/
def Before (e f : Edge) : Prop :=
  e.source < f.source ∨ (e.source = f.source ∧ (e.target < f.target ∨
    (e.target = f.target ∧ LabelBefore e.label f.label)))

theorem compare_label_eq_lt_iff {l l' : Option Char} :
    compare l l' = .lt ↔ LabelBefore l l' := by
  cases l with
  | none =>
    cases l' with
    | none => exact iff_of_false (by decide) id
    | some d => exact iff_of_true rfl trivial
  | some c =>
    cases l' with
    | none => exact iff_of_false (show Ordering.gt ≠ .lt by decide) id
    | some d => exact compareOfLessAndEq_eq_lt

theorem compare_eq_lt_iff {e f : Edge} : compare e f = .lt ↔ e.Before f := by
  simp only [compare_def, Ordering.then_eq_lt, Nat.compare_eq_lt, Nat.compare_eq_eq,
    compare_label_eq_lt_iff, Before]

end Edge

/-- What a line of a dump shows: an edge, and whether its source and its target are marked as
    starting and as final. -/
structure Shown where
  edge : Edge
  source : Bool × Bool
  target : Bool × Bool

namespace Shown

/-- The character for a mark that a state has or has not. -/
def mark (marked : Bool) : Char :=
  if marked then '*' else ' '

/-- A state between its marks. -/
def stateText (state : Nat × Bool × Bool) : List Char :=
  mark state.2.1 :: (Nat.toDigits 10 state.1 ++ [mark state.2.2])

/-- The line that shows an edge. -/
def text (shown : Shown) : List Char :=
  stateText (shown.edge.source, shown.source) ++ ' ' ::
    ((Automaton.arrow shown.edge.label).toList ++ ' ' ::
      stateText (shown.edge.target, shown.target))

theorem mark_injective {marked marked' : Bool} (h : mark marked = mark marked') :
    marked = marked' := by
  cases marked <;> cases marked' <;> simp [mark] at h ⊢

theorem isDigit_mark (marked : Bool) : (mark marked).isDigit = false := by
  cases marked <;> rfl

theorem isDigit_of_mem_numeral {s : Nat} : ∀ c ∈ Nat.toDigits 10 s, c.isDigit = true :=
  fun _ hc => Nat.isDigit_of_mem_toDigits (by decide) (by decide) hc

/-- A numeral ends at the mark behind it. -/
theorem apart_stateText (state state' : Nat × Bool × Bool) :
    Text.Apart stateText state state' := by
  obtain ⟨s, starting, final⟩ := state
  obtain ⟨s', starting', final'⟩ := state'
  intro u v h
  unfold stateText at h
  simp only [List.cons_append, List.append_assoc, List.nil_append, List.cons.injEq] at h
  rcases h with ⟨hstarting, h⟩
  rcases Text.append_cons_inj isDigit_of_mem_numeral isDigit_of_mem_numeral (isDigit_mark final)
    (isDigit_mark final') h with ⟨hnumeral, hfinal, hrest⟩
  -- The digits give the number back.
  have hs : s = s' := by
    rw [← Nat.ofDigitChars_ten_toDigits (n := s), hnumeral, Nat.ofDigitChars_ten_toDigits]
  exact ⟨by rw [hs, mark_injective hstarting, mark_injective hfinal], hrest⟩

/-- The symbol stands in the third place of an arrow, and the arrow of an epsilon edge has another
    character than all others in the fourth. -/
theorem apart_arrow (label label' : Option Char) :
    Text.Apart (fun l => (Automaton.arrow l).toList) label label' := by
  intro u v h
  cases label <;> cases label' <;> simp [Automaton.arrow] at h ⊢ <;> exact h

/-- Lines are told apart. -/
theorem apart (shown shown' : Shown) : Text.Apart text shown shown' := by
  obtain ⟨⟨s, t, label⟩, source, target⟩ := shown
  obtain ⟨⟨s', t', label'⟩, source', target'⟩ := shown'
  intro u v h
  unfold text at h
  rw [List.append_assoc, List.append_assoc] at h
  -- What is written first is decoded first: the source, then the arrow with its label, then the
  -- target.
  rcases apart_stateText _ _ _ _ h with ⟨hsource, h⟩
  simp only [List.cons_append, List.cons.injEq, true_and, List.append_assoc] at h
  rcases apart_arrow _ _ _ _ h with ⟨hlabel, h⟩
  rcases apart_stateText _ _ _ _ (List.cons.inj h).2 with ⟨htarget, hrest⟩
  simp only [Prod.mk.injEq] at hsource htarget
  exact ⟨by rw [hsource.1, hsource.2, htarget.1, htarget.2, hlabel], hrest⟩

theorem text_ne_nil (shown : Shown) : shown.text ≠ [] :=
  List.cons_ne_nil _ _

/-- Lines that are put together are told from the text. -/
theorem eq_of_unlines_eq {lines lines' : List Shown}
    (h : Text.unlines (lines.map text) = Text.unlines (lines'.map text)) : lines = lines' := by
  -- A text is empty if and only if there are no lines, since no line is.
  have hnil : ∀ others : List Shown, Text.unlines (others.map text) = [] ↔ others = [] := by
    intro others
    cases others with
    | nil => exact iff_of_true rfl rfl
    | cons first rest =>
      cases rest with
      | nil => simp [Text.unlines, List.intercalate, text_ne_nil]
      | cons second rest => simp [Text.unlines_cons_cons]
  have hboth : lines = [] ↔ lines' = [] := by rw [← hnil lines, h, hnil]
  by_cases hempty : lines = []
  · rw [hempty, hboth.1 hempty]
  · have hempty' : lines' ≠ [] := mt hboth.2 hempty
    have hfeed := congrArg ('\n' :: ·) h
    simp only [Text.cons_unlines, List.map_eq_nil_iff, ne_eq, hempty, hempty',
      not_false_eq_true, List.flatMap_map] at hfeed
    have hmembers : lines.flatMap (fun shown => '\n' :: shown.text) ++ [] =
        lines'.flatMap (fun shown => '\n' :: shown.text) ++ [] := by rw [hfeed]
    exact (Text.eq_of_flatMap_append_eq (fun x _ y _ => (apart x y).cons '\n')
      (fun _ _ _ => List.cons_ne_nil _ _) (fun _ _ _ => List.cons_ne_nil _ _) hmembers).1

end Shown

namespace Automaton

/-- Whether a state is starting, and whether it is final. -/
def marks (A : Automaton) (s : Nat) : Bool × Bool :=
  (decide (s ∈ A.starting), decide (s ∈ A.final))

/-- What the line of an edge shows. -/
def shown (A : Automaton) (e : Edge) : Shown :=
  ⟨e, A.marks e.source, A.marks e.target⟩

variable {A B : Automaton} {edges : List Edge}

theorem toList_stateLabel (A : Automaton) (s : Nat) :
    (A.stateLabel s).toList = Shown.stateText (s, A.marks s) := by
  by_cases hstarting : s ∈ A.starting <;> by_cases hfinal : s ∈ A.final <;>
    simp [stateLabel, Shown.stateText, Shown.mark, marks, hstarting, hfinal]

theorem toList_edgeLine (A : Automaton) (e : Edge) : (A.edgeLine e).toList = (A.shown e).text := by
  simp [edgeLine, Shown.text, shown, toList_stateLabel]

/-- The lines of edges, put together. -/
theorem toList_intercalate_edgeLine (A : Automaton) (edges : List Edge) :
    ("\n".intercalate (edges.map A.edgeLine)).toList =
      Text.unlines ((edges.map A.shown).map Shown.text) := by
  rw [String.toList_intercalate, List.map_map, List.map_map, Text.unlines]
  congr 2
  exact funext A.toList_edgeLine

/-- Lines of edges are told from their texts, together with the marks in them. -/
theorem map_shown_eq_of_intercalate_eq {edges' : List Edge}
    (h : "\n".intercalate (edges.map A.edgeLine) = "\n".intercalate (edges'.map B.edgeLine)) :
    edges.map A.shown = edges'.map B.shown := by
  have htexts := congrArg String.toList h
  rw [toList_intercalate_edgeLine, toList_intercalate_edgeLine] at htexts
  exact Shown.eq_of_unlines_eq htexts

theorem map_edge_shown (A : Automaton) (edges : List Edge) :
    (edges.map A.shown).map Shown.edge = edges := by
  rw [List.map_map]
  exact List.map_id edges

/-- A dump has a line for every edge, and no other list of edges has the same lines. -/
theorem dump_eq_iff :
    A.dump = "\n".intercalate (edges.map A.edgeLine) ↔ edges = A.edges.toList := by
  constructor
  · intro h
    have hshown := congrArg (List.map Shown.edge) (map_shown_eq_of_intercalate_eq h)
    rwa [map_edge_shown, map_edge_shown, eq_comm] at hshown
  · rintro rfl
    rfl

theorem marks_eq_iff {s : Nat} : A.marks s = B.marks s ↔
    (s ∈ A.starting ↔ s ∈ B.starting) ∧ (s ∈ A.final ↔ s ∈ B.final) := by
  simp [marks]

/-- The dumps of two automata are equal exactly if the automata have the same edges and the states
    at the ends of these have the same marks. In a dump every edge comes once, the edges are in
    ascending order, and it can be told from the dump which edges they are. -/
theorem dump_eq_dump_iff (A B : Automaton) :
    (A.dump = B.dump ↔ A.edges = B.edges ∧ ∀ e ∈ A.edges, ∀ s, s = e.source ∨ s = e.target →
      (s ∈ A.starting ↔ s ∈ B.starting) ∧ (s ∈ A.final ↔ s ∈ B.final)) ∧
    ∃ edges : List Edge, edges.Pairwise Edge.Before ∧ (∀ e, e ∈ edges ↔ e ∈ A.edges) ∧
      ∀ others, A.dump = "\n".intercalate (others.map A.edgeLine) ↔ others = edges := by
  have hends : ∀ {e : Edge}, A.shown e = B.shown e ↔ ∀ s, s = e.source ∨ s = e.target →
      (s ∈ A.starting ↔ s ∈ B.starting) ∧ (s ∈ A.final ↔ s ∈ B.final) := by
    simp only [shown, Shown.mk.injEq, true_and, marks_eq_iff, forall_eq_or_imp, forall_eq,
      implies_true]
  refine ⟨⟨fun h => ?_, fun h => ?_⟩, A.edges.toList, ?_, fun e => Std.ExtTreeSet.mem_toList,
    fun others => dump_eq_iff⟩
  -- The lines give the edges and the marks at their ends back.
  · have hlines : A.edges.toList.map A.shown = B.edges.toList.map B.shown :=
      map_shown_eq_of_intercalate_eq h
    have hedges : A.edges.toList = B.edges.toList := by
      have hshown := congrArg (List.map Shown.edge) hlines
      rwa [map_edge_shown, map_edge_shown] at hshown
    have hsame : A.edges = B.edges := Std.ExtTreeSet.toList_inj.1 hedges
    rw [hsame, List.map_inj_left] at hlines
    refine ⟨hsame, fun e he => hends.1 (hlines e (Std.ExtTreeSet.mem_toList.2 (hsame ▸ he)))⟩
  · rcases h with ⟨hedges, hmarks⟩
    have hlines : A.edges.toList.map A.edgeLine = B.edges.toList.map B.edgeLine := by
      rw [← hedges, List.map_inj_left]
      intro e he
      refine String.toList_inj.1 ?_
      rw [toList_edgeLine, toList_edgeLine,
        hends.2 (hmarks e (Std.ExtTreeSet.mem_toList.1 he))]
    rw [dump, dump, hlines]
  · exact Std.ExtTreeSet.ordered_toList.imp Edge.compare_eq_lt_iff.1

end Automaton

end FiniteState
