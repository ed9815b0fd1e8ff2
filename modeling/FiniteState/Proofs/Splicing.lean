import FiniteState.Proofs.Bridging
import FiniteState.Proofs.Outcomes
import Mathlib.Algebra.BigOperators.Group.List.Basic

/-!
# Automata in a Row and Side by Side

What atomic automata accept when copies of them are joined in one numbering. A path through the
copies is cut where it leaves the first of them, which it can do only from the exit of that copy,
and what is left is a path through the other copies. So the proofs follow the list of members, as
`Splice.ofParts` and the links do.

## Main definitions

* `Splice.Located`: Well-formed automata, each with its ends.
* `Splice.Link`: An epsilon edge from a certain state or a copy into a copy or to the exit.
* `Splice.rowEdges`, `Splice.sideEdges`: The edges of copies with the links between them.

## Theorems

* `Path.cross`: A path that leaves a region for good is cut where it does.
* `Splice.path_chain`, `Splice.path_fan`: The words on the way through all copies, or through one.
* `Splice.wellFormed_enclose`: Copies with links between them make a well-formed automaton.
* `Splice.exists_ofMembers`, `Splice.ofMembers_eq_error`: Members are copied if all have ends, and
  else the first one without is reported.
* `Automaton.language_concatenation`, `Automaton.language_disjunction`: The product and the union.
-/

namespace FiniteState

/-- The only member of a set of one state. -/
theorem StateSet.toList_singleton (s : Nat) : (StateSet.ofList [s]).toList = [s] := by
  have hmem : ∀ t, t ∈ (StateSet.ofList [s]).toList ↔ t = s := by
    intro t
    rw [StateSet.mem_toList, StateSet.mem_ofList, List.mem_singleton]
  have hpairwise := StateSet.pairwise_toList (StateSet.ofList [s])
  -- Two members would both be the state, but they are in ascending order.
  generalize (StateSet.ofList [s]).toList = members at hmem hpairwise
  match members with
  | [] => exact absurd ((hmem s).2 rfl) List.not_mem_nil
  | [t] => rw [(hmem t).1 List.mem_cons_self]
  | t :: u :: rest =>
    have ht := (hmem t).1 (by simp)
    have hu := (hmem u).1 (by simp)
    have hlt := List.rel_of_pairwise_cons hpairwise List.mem_cons_self
    omega

theorem StateSet.toList_eq_singleton_iff {states : StateSet} {s : Nat} :
    states.toList = [s] ↔ states = .ofList [s] := by
  constructor
  · intro h
    refine StateSet.ext_mem fun t => ?_
    rw [← StateSet.mem_toList, h, StateSet.mem_ofList]
  · rintro rfl
    exact StateSet.toList_singleton s

namespace Path

variable {edges : Set Edge} {s t b : Nat} {word : List Char}

/-- A path along epsilon edges spells nothing. -/
theorem eq_nil_of_epsilon (hedges : ∀ e ∈ edges, e.label = none) (h : Path edges s word t) :
    word = [] := by
  induction h with
  | nil => rfl
  | @cons s m t label word edge _ ih =>
    obtain rfl : label = none := hedges _ edge
    exact ih

/-- A path from a near state to one that is not near is cut at the state `b`, from which alone the
    far states are reached, and from there nothing near. -/
theorem cross {first second : Set Edge} (near far : Nat → Prop)
    (hnear : ∀ e ∈ edges, near e.source →
      (e ∈ first ∧ near e.target) ∨ (e ∈ second ∧ e.source = b ∧ far e.target))
    (hfar : ∀ e ∈ edges, far e.source → e ∈ second ∧ far e.target)
    (hs : near s) (ht : ¬ near t) (h : Path edges s word t) :
    ∃ u v, word = u ++ v ∧ Path first s u b ∧ Path second b v t := by
  induction h with
  | nil => exact absurd hs ht
  | @cons s m t label word edge rest ih =>
    rcases hnear _ edge hs with ⟨hfirst, hm⟩ | ⟨hsecond, hb, hm⟩
    · rcases ih hm ht with ⟨u, v, rfl, hu, hv⟩
      exact ⟨label.toList ++ u, v, (List.append_assoc _ _ _).symm, cons hfirst hu, hv⟩
    · obtain rfl : s = b := hb
      exact ⟨[], _, rfl, nil s, cons hsecond (confine far hfar hm rest).1⟩

theorem shift (offset : Nat) (h : Path edges s word t) :
    Path (Edge.shift offset '' edges) (s + offset) word (t + offset) := by
  induction h with
  | nil s => exact nil _
  | @cons s m t label word edge _ ih => exact cons (m := m + offset) ⟨_, edge, rfl⟩ ih

/-- A path along renumbered edges is a path renumbered. -/
theorem of_shift {offset : Nat}
    (h : Path (Edge.shift offset '' edges) (s + offset) word (t + offset)) :
    Path edges s word t := by
  -- The ends have to be variables for the induction on the path.
  generalize hs : s + offset = s' at h
  generalize ht : t + offset = t' at h
  induction h generalizing s with
  | nil =>
    obtain rfl : s = t := by omega
    exact nil s
  | cons edge _ ih =>
    rcases edge with ⟨⟨source, target, label⟩, hedge, heq⟩
    simp only [Edge.shift, Edge.mk.injEq] at heq
    rcases heq with ⟨hsource, htarget, rfl⟩
    obtain rfl : source = s := by omega
    exact cons hedge (ih htarget ht)

end Path

namespace Splice

/-- Well-formed automata, each with its ends. -/
def Located (parts : List (Automaton × Ends)) : Prop :=
  ∀ part ∈ parts, part.1.WellFormed ∧ part.1.ends = .ok part.2

/-- An epsilon edge that leaves a certain state or one between two bounds, and leads between these
    bounds or to the upper one. -/
structure Link (low exit origin : Nat) (e : Edge) : Prop where
  source : e.source = origin ∨ (low ≤ e.source ∧ e.source < exit)
  target : low ≤ e.target ∧ e.target ≤ exit
  label : e.label = none

variable {parts : List (Automaton × Ends)} {offset : Nat}

theorem Located.of_members (hmembers : ∀ A ∈ parts.map Prod.fst, A.WellFormed)
    (hends : ∀ part ∈ parts, part.1.ends = .ok part.2) : Located parts :=
  fun part hpart => ⟨hmembers _ (List.mem_map_of_mem hpart), hends part hpart⟩

theorem Located.tail {part : Automaton × Ends} (h : Located (part :: parts)) : Located parts :=
  fun other hother => h other (List.mem_cons_of_mem _ hother)

theorem le_size_ofParts (offset : Nat) (parts : List (Automaton × Ends)) :
    offset ≤ (ofParts offset parts).size := by
  induction parts generalizing offset with
  | nil => exact le_refl offset
  | cons part rest ih => exact (Nat.le_add_right _ _).trans (ih _)

/-- The edges of copies are those of an automaton, renumbered. -/
theorem mem_edges_cons {A : Automaton} {ends : Ends} {rest : List (Automaton × Ends)} {e : Edge} :
    e ∈ (ofParts offset ((A, ends) :: rest)).edges ↔
      e ∈ Edge.shift offset '' {f | f ∈ A.edges} ∨ e ∈ (ofParts (offset + A.size) rest).edges := by
  rw [ofParts, List.mem_append, List.mem_map]
  simp only [Std.ExtTreeSet.mem_toList, Set.mem_image, Set.mem_ofPred_eq]

theorem mem_image_shift_lt {A : Automaton} (hA : A.WellFormed) {e : Edge}
    (h : e ∈ Edge.shift offset '' {f | f ∈ A.edges}) :
    (offset ≤ e.source ∧ e.source < offset + A.size) ∧
      (offset ≤ e.target ∧ e.target < offset + A.size) := by
  rcases h with ⟨f, hf, rfl⟩
  have hsource := hA.source_lt f hf
  have htarget := hA.target_lt f hf
  simp only [Edge.shift]
  omega

/-- Copies lie between the offset and the end of the last of them. -/
theorem mem_edges_lt (hparts : Located parts) {e : Edge} (he : e ∈ (ofParts offset parts).edges) :
    (offset ≤ e.source ∧ e.source < (ofParts offset parts).size) ∧
      (offset ≤ e.target ∧ e.target < (ofParts offset parts).size) := by
  induction parts generalizing offset with
  | nil => exact absurd he List.not_mem_nil
  | cons part rest ih =>
    have hle := le_size_ofParts (offset + part.1.size) rest
    simp only [ofParts] at hle ⊢
    rcases mem_edges_cons.1 he with hcopy | hrest
    · have hlt := mem_image_shift_lt (hparts part List.mem_cons_self).1 hcopy
      omega
    · have hlt := ih hparts.tail hrest
      omega

theorem mem_spans_lt (hparts : Located parts) {span : Ends}
    (h : span ∈ (ofParts offset parts).spans) :
    (offset ≤ span.entry ∧ span.entry < (ofParts offset parts).size) ∧
      (offset ≤ span.exit ∧ span.exit < (ofParts offset parts).size) := by
  induction parts generalizing offset with
  | nil => exact absurd h List.not_mem_nil
  | cons part rest ih =>
    have hle := le_size_ofParts (offset + part.1.size) rest
    simp only [ofParts, List.mem_cons] at h hle ⊢
    -- The ends of the first copy are inside it, and those of the others are behind it.
    rcases h with rfl | hrest
    · have hpart := hparts part List.mem_cons_self
      have hlt := hpart.1.ends_lt hpart.2
      simp only [Ends.shift]
      omega
    · have hlt := ih hparts.tail hrest
      omega

theorem link_of_mem_chain {spans : List Ends} {low exit origin : Nat} (hle : low ≤ exit)
    (hspans : ∀ span ∈ spans, (low ≤ span.entry ∧ span.entry < exit) ∧
      (low ≤ span.exit ∧ span.exit < exit)) {e : Edge} (he : e ∈ chain exit origin spans) :
    Link low exit origin e := by
  induction spans generalizing origin with
  | nil =>
    obtain rfl := List.mem_singleton.1 he
    exact ⟨Or.inl rfl, ⟨hle, le_refl exit⟩, rfl⟩
  | cons span rest ih =>
    have hspan := hspans span List.mem_cons_self
    rcases List.mem_cons.1 he with rfl | hrest
    · exact ⟨Or.inl rfl, ⟨hspan.1.1, hspan.1.2.le⟩, rfl⟩
    · have hlink := ih (fun other hother => hspans other (List.mem_cons_of_mem _ hother)) hrest
      -- The next link begins at the exit of this copy.
      refine ⟨Or.inr ?_, hlink.target, hlink.label⟩
      rcases hlink.source with hsource | hsource
      · rw [hsource]
        exact hspan.2
      · exact hsource

theorem link_of_mem_fan {spans : List Ends} {low exit : Nat} (hle : low ≤ exit)
    (hspans : ∀ span ∈ spans, (low ≤ span.entry ∧ span.entry < exit) ∧
      (low ≤ span.exit ∧ span.exit < exit)) {e : Edge} (he : e ∈ fan exit spans) :
    Link low exit 0 e := by
  rcases List.mem_flatMap.1 he with ⟨span, hspan, hmem⟩
  have hlt := hspans span hspan
  simp only [List.mem_cons, List.not_mem_nil, or_false] at hmem
  rcases hmem with rfl | rfl
  · exact ⟨Or.inl rfl, ⟨hlt.1.1, hlt.1.2.le⟩, rfl⟩
  · exact ⟨Or.inr hlt.2, ⟨hle, le_refl exit⟩, rfl⟩

/-- The edges of copies with the links of a row. -/
def rowEdges (exit origin : Nat) (s : Splice) : Set Edge :=
  {e | e ∈ s.edges ∨ e ∈ chain exit origin s.spans}

/-- The edges of copies with the links of members side by side. -/
def sideEdges (exit : Nat) (s : Splice) : Set Edge :=
  {e | e ∈ s.edges ∨ e ∈ fan exit s.spans}

theorem link_of_mem_row (hparts : Located parts) {exit origin : Nat}
    (hexit : (ofParts offset parts).size ≤ exit) {e : Edge}
    (he : e ∈ chain exit origin (ofParts offset parts).spans) : Link offset exit origin e := by
  refine link_of_mem_chain ((le_size_ofParts offset parts).trans hexit) (fun span hspan => ?_) he
  have hlt := mem_spans_lt hparts hspan
  omega

theorem link_of_mem_side (hparts : Located parts) {exit : Nat}
    (hexit : (ofParts offset parts).size ≤ exit) {e : Edge}
    (he : e ∈ fan exit (ofParts offset parts).spans) : Link offset exit 0 e := by
  refine link_of_mem_fan ((le_size_ofParts offset parts).trans hexit) (fun span hspan => ?_) he
  have hlt := mem_spans_lt hparts hspan
  omega

theorem mem_rowEdges_lt (hparts : Located parts) {exit origin : Nat}
    (hexit : (ofParts offset parts).size ≤ exit) {e : Edge}
    (he : e ∈ rowEdges exit origin (ofParts offset parts)) :
    (e.source = origin ∨ (offset ≤ e.source ∧ e.source < exit)) ∧ offset ≤ e.target := by
  rcases he with hcopy | hlink
  · have hlt := mem_edges_lt hparts hcopy
    omega
  · have hlink := link_of_mem_row hparts hexit hlink
    exact ⟨hlink.source, hlink.target.1⟩

theorem mem_sideEdges_lt (hparts : Located parts) {exit : Nat}
    (hexit : (ofParts offset parts).size ≤ exit) {e : Edge}
    (he : e ∈ sideEdges exit (ofParts offset parts)) :
    (e.source = 0 ∨ (offset ≤ e.source ∧ e.source < exit)) ∧ offset ≤ e.target := by
  rcases he with hcopy | hlink
  · have hlt := mem_edges_lt hparts hcopy
    omega
  · have hlink := link_of_mem_side hparts hexit hlink
    exact ⟨hlink.source, hlink.target.1⟩

/-- A row is the link to its first copy, that copy, and the row of the others, which begins at the
    exit of the first. -/
theorem mem_rowEdges_cons {A : Automaton} {ends : Ends} {exit origin : Nat} {e : Edge} :
    e ∈ rowEdges exit origin (ofParts offset ((A, ends) :: parts)) ↔
      e = .epsilon origin (ends.entry + offset) ∨ e ∈ Edge.shift offset '' {f | f ∈ A.edges} ∨
        e ∈ rowEdges exit (ends.exit + offset) (ofParts (offset + A.size) parts) := by
  have hchain : e ∈ chain exit origin (ofParts offset ((A, ends) :: parts)).spans ↔
      e = .epsilon origin (ends.entry + offset) ∨
        e ∈ chain exit (ends.exit + offset) (ofParts (offset + A.size) parts).spans :=
    List.mem_cons
  simp only [rowEdges, Set.mem_ofPred_eq, mem_edges_cons, hchain]
  tauto

/-- Members side by side are the first copy with the links to and from it, and the others. -/
theorem mem_sideEdges_cons {A : Automaton} {ends : Ends} {exit : Nat} {e : Edge} :
    e ∈ sideEdges exit (ofParts offset ((A, ends) :: parts)) ↔
      (e = .epsilon 0 (ends.entry + offset) ∨ e = .epsilon (ends.exit + offset) exit ∨
        e ∈ Edge.shift offset '' {f | f ∈ A.edges}) ∨
        e ∈ sideEdges exit (ofParts (offset + A.size) parts) := by
  have hfan : e ∈ fan exit (ofParts offset ((A, ends) :: parts)).spans ↔
      (e = .epsilon 0 (ends.entry + offset) ∨ e = .epsilon (ends.exit + offset) exit) ∨
        e ∈ fan exit (ofParts (offset + A.size) parts).spans := by
    simp only [ofParts, fan, Ends.shift, List.flatMap_cons, List.mem_append, List.mem_cons,
      List.not_mem_nil, or_false]
  simp only [sideEdges, Set.mem_ofPred_eq, mem_edges_cons, hfan]
  tauto

/-- A path from the entry of the first copy of a row is cut at the exit of that copy. -/
theorem cross_row {A : Automaton} {ends : Ends} (hparts : Located ((A, ends) :: parts))
    {exit origin : Nat} {word : List Char} (horigin : origin < offset)
    (hexit : (ofParts (offset + A.size) parts).size ≤ exit)
    (h : Path (rowEdges exit origin (ofParts offset ((A, ends) :: parts)))
      (ends.entry + offset) word exit) :
    ∃ u v, word = u ++ v ∧ u ∈ A.language ∧
      Path (rowEdges exit (ends.exit + offset) (ofParts (offset + A.size) parts))
        (ends.exit + offset) v exit := by
  have hpart : A.WellFormed ∧ A.ends = .ok ends := hparts _ List.mem_cons_self
  have hends := hpart.1.ends_lt hpart.2
  have hle := le_size_ofParts (offset + A.size) parts
  -- Edges of the copy stay in it, and those that lead on from its exit never come back.
  have hnear : ∀ e ∈ rowEdges exit origin (ofParts offset ((A, ends) :: parts)),
      offset ≤ e.source ∧ e.source < offset + A.size →
        (e ∈ Edge.shift offset '' {f | f ∈ A.edges} ∧
          offset ≤ e.target ∧ e.target < offset + A.size) ∨
        (e ∈ rowEdges exit (ends.exit + offset) (ofParts (offset + A.size) parts) ∧
          e.source = ends.exit + offset ∧ offset + A.size ≤ e.target) := by
    intro e he hnear
    rcases mem_rowEdges_cons.1 he with rfl | hcopy | hrest
    · simp only [Edge.epsilon] at hnear
      omega
    · exact Or.inl ⟨hcopy, (mem_image_shift_lt hpart.1 hcopy).2⟩
    · have hlt := mem_rowEdges_lt hparts.tail hexit hrest
      exact Or.inr ⟨hrest, by omega, hlt.2⟩
  have hfar : ∀ e ∈ rowEdges exit origin (ofParts offset ((A, ends) :: parts)),
      offset + A.size ≤ e.source →
        e ∈ rowEdges exit (ends.exit + offset) (ofParts (offset + A.size) parts) ∧
          offset + A.size ≤ e.target := by
    intro e he hfar
    rcases mem_rowEdges_cons.1 he with rfl | hcopy | hrest
    · simp only [Edge.epsilon] at hfar
      omega
    · have hlt := mem_image_shift_lt hpart.1 hcopy
      omega
    · exact ⟨hrest, (mem_rowEdges_lt hparts.tail hexit hrest).2⟩
  rcases h.cross (fun s => offset ≤ s ∧ s < offset + A.size) (fun s => offset + A.size ≤ s)
    hnear hfar (by omega) (by omega) with ⟨u, v, rfl, hu, hv⟩
  exact ⟨u, v, rfl, (Automaton.mem_language_iff_path hpart.2).2 hu.of_shift, hv⟩

/-- The words on the way through a row of copies are made of a word of each in order. -/
theorem path_chain (hparts : Located parts) {origin exit : Nat} {word : List Char}
    (horigin : origin < offset) (hexit : (ofParts offset parts).size ≤ exit) :
    Path (rowEdges exit origin (ofParts offset parts)) origin word exit ↔
      word ∈ (parts.map fun part => part.1.language).prod := by
  induction parts generalizing offset origin word with
  | nil =>
    rw [List.map_nil, List.prod_nil, Language.mem_one]
    constructor
    -- Without copies there is only the link from the origin to the exit.
    · refine Path.eq_nil_of_epsilon fun e he => ?_
      rcases he with hcopy | hlink
      · exact absurd hcopy List.not_mem_nil
      · exact (link_of_mem_row hparts hexit hlink).label
    · rintro rfl
      exact Path.epsilon (Or.inr (List.mem_singleton.2 rfl))
  | cons part rest ih =>
    obtain ⟨A, ends⟩ := part
    have hpart : A.WellFormed ∧ A.ends = .ok ends := hparts _ List.mem_cons_self
    have hends := hpart.1.ends_lt hpart.2
    have hexit' : (ofParts (offset + A.size) rest).size ≤ exit := hexit
    have hle := le_size_ofParts (offset + A.size) rest
    have hexitlt : ends.exit + offset < offset + A.size := by omega
    rw [List.map_cons, List.prod_cons, Language.mem_mul]
    constructor
    · intro hpath
      cases hpath with
      | nil => omega
      | cons edge hpath =>
        -- Nothing but the link to the first copy leaves the origin.
        rcases mem_rowEdges_cons.1 edge with heq | hcopy | hrest
        · simp only [Edge.epsilon, Edge.mk.injEq] at heq
          rcases heq with ⟨-, rfl, rfl⟩
          rcases cross_row hparts horigin hexit' hpath with ⟨u, v, rfl, hu, hv⟩
          exact ⟨u, hu, v, (ih hparts.tail hexitlt hexit').1 hv, rfl⟩
        · have hlt := (mem_image_shift_lt hpart.1 hcopy).1.1
          exact absurd horigin (Nat.not_lt.2 hlt)
        · have hlt := (mem_rowEdges_lt hparts.tail hexit' hrest).1
          simp only at hlt
          omega
    · intro h
      rcases h with ⟨u, hu, v, hv, rfl⟩
      have hcopy := ((Automaton.mem_language_iff_path hpart.2).1 hu).shift offset
      have hrest := (ih hparts.tail hexitlt hexit').2 hv
      have hlink : Edge.epsilon origin (ends.entry + offset) ∈
          rowEdges exit origin (ofParts offset ((A, ends) :: rest)) :=
        mem_rowEdges_cons.2 (Or.inl rfl)
      exact (Path.epsilon hlink).append
        ((hcopy.mono fun e he => mem_rowEdges_cons.2 (Or.inr (Or.inl he))).append
          (hrest.mono fun e he => mem_rowEdges_cons.2 (Or.inr (Or.inr he))))

/-- A path from the entry of the first copy to the exit of all spells a word of that copy. -/
theorem cross_side {A : Automaton} {ends : Ends} (hparts : Located ((A, ends) :: parts))
    {exit : Nat} {word : List Char} (hoffset : 0 < offset)
    (hexit : (ofParts (offset + A.size) parts).size ≤ exit)
    (h : Path (sideEdges exit (ofParts offset ((A, ends) :: parts)))
      (ends.entry + offset) word exit) :
    word ∈ A.language := by
  have hpart : A.WellFormed ∧ A.ends = .ok ends := hparts _ List.mem_cons_self
  have hends := hpart.1.ends_lt hpart.2
  have hle := le_size_ofParts (offset + A.size) parts
  -- Edges of the copy stay in it, and from its exit a link leads to the exit of all.
  have hnear : ∀ e ∈ sideEdges exit (ofParts offset ((A, ends) :: parts)),
      offset ≤ e.source ∧ e.source < offset + A.size →
        (e ∈ Edge.shift offset '' {f | f ∈ A.edges} ∧
          offset ≤ e.target ∧ e.target < offset + A.size) ∨
        (e ∈ ({.epsilon (ends.exit + offset) exit} : Set Edge) ∧
          e.source = ends.exit + offset ∧ e.target = exit) := by
    intro e he hnear
    rcases mem_sideEdges_cons.1 he with (rfl | rfl | hcopy) | hrest
    · simp only [Edge.epsilon] at hnear
      omega
    · exact Or.inr ⟨rfl, rfl, rfl⟩
    · exact Or.inl ⟨hcopy, (mem_image_shift_lt hpart.1 hcopy).2⟩
    · have hlt := mem_sideEdges_lt hparts.tail hexit hrest
      omega
  have hfar : ∀ e ∈ sideEdges exit (ofParts offset ((A, ends) :: parts)), e.source = exit →
      e ∈ ({.epsilon (ends.exit + offset) exit} : Set Edge) ∧ e.target = exit := by
    intro e he hfar
    -- Nothing leaves the exit.
    rcases mem_sideEdges_cons.1 he with (rfl | rfl | hcopy) | hrest
    · simp only [Edge.epsilon] at hfar
      omega
    · simp only [Edge.epsilon] at hfar
      omega
    · have hlt := mem_image_shift_lt hpart.1 hcopy
      omega
    · have hlt := mem_sideEdges_lt hparts.tail hexit hrest
      omega
  rcases h.cross (fun s => offset ≤ s ∧ s < offset + A.size) (fun s => s = exit)
    hnear hfar (by omega) (by omega) with ⟨u, v, rfl, hu, hv⟩
  obtain rfl : v = [] := hv.eq_nil_of_epsilon fun e he => by rw [he]; rfl
  rw [List.append_nil]
  exact (Automaton.mem_language_iff_path hpart.2).2 hu.of_shift

/-- The words on the way through copies side by side are the words of any of them. -/
theorem path_fan (hparts : Located parts) {exit : Nat} {word : List Char} (hoffset : 0 < offset)
    (hexit : (ofParts offset parts).size ≤ exit) :
    Path (sideEdges exit (ofParts offset parts)) 0 word exit ↔
      word ∈ (parts.map fun part => part.1.language).sum := by
  induction parts generalizing offset word with
  | nil =>
    refine ⟨fun hpath => ?_, fun hword => absurd hword (Language.notMem_zero word)⟩
    -- The first edge says which copy the path goes through.
    cases hpath with
    | nil => exact absurd hexit (Nat.not_le.2 hoffset)
    | cons edge _ => rcases edge with hcopy | hlink <;> contradiction
  | cons part rest ih =>
    obtain ⟨A, ends⟩ := part
    have hpart : A.WellFormed ∧ A.ends = .ok ends := hparts _ List.mem_cons_self
    have hexit' : (ofParts (offset + A.size) rest).size ≤ exit := hexit
    have hle := le_size_ofParts (offset + A.size) rest
    have hends := hpart.1.ends_lt hpart.2
    rw [List.map_cons, List.sum_cons, Language.mem_add]
    constructor
    · intro hpath
      cases hpath with
      | nil => omega
      | @cons _ m _ label word edge hpath =>
        rcases mem_sideEdges_cons.1 edge with (heq | heq | hcopy) | hrest
        · simp only [Edge.epsilon, Edge.mk.injEq] at heq
          rcases heq with ⟨-, rfl, rfl⟩
          exact Or.inl (cross_side hparts hoffset hexit' hpath)
        · simp only [Edge.epsilon, Edge.mk.injEq] at heq
          omega
        · have hlt := (mem_image_shift_lt hpart.1 hcopy).1.1
          exact absurd hoffset (Nat.not_lt.2 hlt)
        · -- The path has passed the first copy by, and nothing leads back to it.
          have hm := (mem_sideEdges_lt hparts.tail hexit' hrest).2
          have hfar : ∀ e ∈ sideEdges exit (ofParts offset ((A, ends) :: rest)),
              offset + A.size ≤ e.source →
                e ∈ sideEdges exit (ofParts (offset + A.size) rest) ∧
                  offset + A.size ≤ e.target := by
            intro e he hfar
            rcases mem_sideEdges_cons.1 he with (rfl | rfl | hcopy) | hother
            · simp only [Edge.epsilon] at hfar
              omega
            · simp only [Edge.epsilon] at hfar
              omega
            · have hlt := mem_image_shift_lt hpart.1 hcopy
              omega
            · exact ⟨hother, (mem_sideEdges_lt hparts.tail hexit' hother).2⟩
          have hothers := (hpath.confine _ hfar hm).1
          exact Or.inr ((ih hparts.tail (by omega) hexit').1 (Path.cons hrest hothers))
    · have hfirst : ∀ e, _ → e ∈ sideEdges exit (ofParts offset ((A, ends) :: rest)) :=
        fun e he => mem_sideEdges_cons.2 (Or.inl he)
      intro h
      rcases h with hword | hword
      · have hcopy := ((Automaton.mem_language_iff_path hpart.2).1 hword).shift offset
        have hpath := (Path.epsilon (hfirst _ (Or.inl rfl))).append
          ((hcopy.mono fun e he => hfirst e (Or.inr (Or.inr he))).append
            (Path.epsilon (hfirst _ (Or.inr (Or.inl rfl)))))
        rwa [List.nil_append, List.append_nil] at hpath
      · exact ((ih hparts.tail (by omega) hexit').2 hword).mono
          fun e he => mem_sideEdges_cons.2 (Or.inr he)

theorem isSymbol_of_mem_edges (hparts : Located parts) {e : Edge}
    (he : e ∈ (ofParts offset parts).edges) {c : Char} (hc : e.label = some c) :
    isSymbol c = true := by
  induction parts generalizing offset with
  | nil => exact absurd he List.not_mem_nil
  | cons part rest ih =>
    rcases mem_edges_cons.1 he with ⟨f, hf, rfl⟩ | hrest
    · exact (hparts part List.mem_cons_self).1.isSymbol_of_label f hf c hc
    · exact ih hparts.tail hrest

theorem mem_edges_enclose {s : Splice} {links : List Edge} {e : Edge} :
    e ∈ (s.enclose links).edges ↔ e ∈ s.edges ∨ e ∈ links := by
  rw [enclose, Edge.mem_ofList, List.mem_append]

theorem ends_enclose (s : Splice) (links : List Edge) :
    (s.enclose links).ends = .ok ⟨0, s.size⟩ :=
  Automaton.ends_eq_ok_iff.2 ⟨StateSet.toList_singleton 0, StateSet.toList_singleton s.size⟩

/-- Copies with links between them make a well-formed automaton. -/
theorem wellFormed_enclose (hparts : Located parts) {links : List Edge}
    (hlinks : ∀ e ∈ links, Link 1 (ofParts 1 parts).size 0 e) :
    ((ofParts 1 parts).enclose links).WellFormed := by
  -- Copies and links stay between the entry and the exit, which is the last state.
  have hlt : ∀ e ∈ ((ofParts 1 parts).enclose links).edges,
      e.source < (ofParts 1 parts).size + 1 ∧ e.target < (ofParts 1 parts).size + 1 := by
    intro e he
    rcases mem_edges_enclose.1 he with hcopy | hlink
    · have hcopy := mem_edges_lt hparts hcopy
      omega
    · have hsource := (hlinks e hlink).source
      have htarget := (hlinks e hlink).target
      omega
  refine ⟨?_, ?_, fun e he => (hlt e he).1, fun e he => (hlt e he).2, ?_⟩
  · intro s hs
    obtain rfl := List.mem_singleton.1 (StateSet.mem_ofList.1 hs)
    exact Nat.succ_pos _
  · intro s hs
    obtain rfl := List.mem_singleton.1 (StateSet.mem_ofList.1 hs)
    exact Nat.lt_succ_self _
  · intro e he c hc
    rcases mem_edges_enclose.1 he with hcopy | hlink
    · exact isSymbol_of_mem_edges hparts hcopy hc
    · rw [(hlinks e hlink).label] at hc
      exact absurd hc (by simp)

theorem ofMembers_eq_ok_iff {members : List Automaton} {s : Splice} :
    ofMembers members = .ok s ↔ ∃ parts : List (Automaton × Ends), parts.map Prod.fst = members ∧
      (∀ part ∈ parts, part.1.ends = .ok part.2) ∧ s = ofParts 1 parts := by
  have hpair : ∀ (A : Automaton) (part : Automaton × Ends),
      (do return (A, ← A.ends)) = Except.ok part ↔ part.1 = A ∧ part.1.ends = .ok part.2 := by
    rintro A ⟨B, ends⟩
    simp only [bind_eq_ok_iff, pure, Except.pure, Except.ok.injEq, Prod.mk.injEq]
    constructor
    · intro h
      rcases h with ⟨_, hends, rfl, rfl⟩
      exact ⟨rfl, hends⟩
    · intro h
      rcases h with ⟨rfl, hends⟩
      exact ⟨ends, hends, rfl, rfl⟩
  -- Pairing every member with its ends succeeds on all members or not at all.
  have hmapM : ∀ parts : List (Automaton × Ends),
      List.Forall₂ (fun A part => part.1 = A ∧ part.1.ends = .ok part.2) members parts ↔
        parts.map Prod.fst = members ∧ ∀ part ∈ parts, part.1.ends = .ok part.2 := by
    intro parts
    constructor
    · intro h
      induction h with
      | nil => simp
      | @cons A part members parts hpart _ ih =>
        refine ⟨by rw [List.map_cons, hpart.1, ih.1], ?_⟩
        exact List.forall_mem_cons.2 ⟨hpart.2, ih.2⟩
    · intro h
      rcases h with ⟨rfl, hends⟩
      induction parts with
      | nil => exact List.Forall₂.nil
      | cons part parts ih =>
        rcases List.forall_mem_cons.1 hends with ⟨hpart, hrest⟩
        exact List.Forall₂.cons ⟨rfl, hpart⟩ (ih hrest)
  rw [ofMembers, bind_eq_ok_iff]
  simp only [mapM_eq_ok_iff, hpair, hmapM]
  simp only [pure, Except.pure, Except.ok.injEq]
  constructor
  · intro h
    rcases h with ⟨parts, ⟨hmap, hends⟩, rfl⟩
    exact ⟨parts, hmap, hends, rfl⟩
  · intro h
    rcases h with ⟨parts, hmap, hends, rfl⟩
    exact ⟨parts, ⟨hmap, hends⟩, rfl⟩

/-- Members with ends can be copied. -/
theorem exists_ofMembers {members : List Automaton}
    (hmembers : ∀ A ∈ members, ∃ ends, A.ends = .ok ends) : ∃ s, ofMembers members = .ok s := by
  have hparts : ∃ parts, (members.mapM fun A => do return (A, ← A.ends)) = Except.ok parts := by
    refine exists_mapM_iff.2 fun A hA => ?_
    rcases hmembers A hA with ⟨ends, hends⟩
    exact ⟨(A, ends), by rw [hends]; rfl⟩
  rcases hparts with ⟨parts, hparts⟩
  exact ⟨ofParts 1 parts, by rw [ofMembers, hparts]; rfl⟩

/-- Copying fails as the first member without ends does. -/
theorem ofMembers_eq_error {before after : List Automaton} {A : Automaton}
    {fault : Automaton.Fault} (hbefore : ∀ B ∈ before, ∃ ends, B.ends = .ok ends)
    (hA : A.ends = .error fault) : ofMembers (before ++ A :: after) = .error fault := by
  have hparts : ((before ++ A :: after).mapM fun A => do return (A, ← A.ends))
      = .error fault := by
    refine mapM_eq_error (fun B hB => ?_) (by rw [hA]; rfl)
    rcases hbefore B hB with ⟨ends, hends⟩
    exact ⟨(B, ends), by rw [hends]; rfl⟩
  rw [ofMembers, hparts]
  rfl

end Splice

namespace Automaton

variable {members : List Automaton} {B : Automaton}

/-- Automata with ends can be combined. -/
theorem exists_combination (hmembers : ∀ A ∈ members, ∃ ends, A.ends = .ok ends) :
    (∃ B, concatenation members = .ok B) ∧ ∃ B, disjunction members = .ok B := by
  rcases Splice.exists_ofMembers hmembers with ⟨s, hs⟩
  exact ⟨⟨_, by rw [concatenation, hs]; rfl⟩, ⟨_, by rw [disjunction, hs]; rfl⟩⟩

theorem concatenation_eq_ok_iff :
    concatenation members = .ok B ↔ ∃ parts : List (Automaton × Ends),
      parts.map Prod.fst = members ∧ (∀ part ∈ parts, part.1.ends = .ok part.2) ∧
        B = (Splice.ofParts 1 parts).enclose
          (Splice.chain (Splice.ofParts 1 parts).size 0 (Splice.ofParts 1 parts).spans) := by
  rw [concatenation, bind_eq_ok_iff]
  simp only [Splice.ofMembers_eq_ok_iff, pure, Except.pure, Except.ok.injEq]
  constructor
  · intro h
    rcases h with ⟨_, ⟨parts, hmap, hends, rfl⟩, rfl⟩
    exact ⟨parts, hmap, hends, rfl⟩
  · intro h
    rcases h with ⟨parts, hmap, hends, rfl⟩
    exact ⟨_, ⟨parts, hmap, hends, rfl⟩, rfl⟩

theorem disjunction_eq_ok_iff :
    disjunction members = .ok B ↔ ∃ parts : List (Automaton × Ends),
      parts.map Prod.fst = members ∧ (∀ part ∈ parts, part.1.ends = .ok part.2) ∧
        B = (Splice.ofParts 1 parts).enclose
          (Splice.fan (Splice.ofParts 1 parts).size (Splice.ofParts 1 parts).spans) := by
  rw [disjunction, bind_eq_ok_iff]
  simp only [Splice.ofMembers_eq_ok_iff, pure, Except.pure, Except.ok.injEq]
  constructor
  · intro h
    rcases h with ⟨_, ⟨parts, hmap, hends, rfl⟩, rfl⟩
    exact ⟨parts, hmap, hends, rfl⟩
  · intro h
    rcases h with ⟨parts, hmap, hends, rfl⟩
    exact ⟨_, ⟨parts, hmap, hends, rfl⟩, rfl⟩

/-- Copies with links accept the words on the way from the new entry to the new exit. -/
theorem mem_language_enclose {s : Splice} {links : List Edge} {word : List Char} :
    word ∈ (s.enclose links).language ↔
      FiniteState.Path {e | e ∈ s.edges ∨ e ∈ links} 0 word s.size := by
  have hedges : {e | e ∈ (s.enclose links).edges} = {e | e ∈ s.edges ∨ e ∈ links} :=
    Set.ext fun e => Splice.mem_edges_enclose
  rw [mem_language_iff_path (Splice.ends_enclose s links), Path, hedges]

/-- The words accepted by automata in a row are made of a word of each in order. -/
theorem language_concatenation (hmembers : ∀ A ∈ members, A.WellFormed)
    (h : concatenation members = .ok B) : B.language = (members.map language).prod := by
  rcases concatenation_eq_ok_iff.1 h with ⟨parts, rfl, hends, rfl⟩
  have hparts := Splice.Located.of_members hmembers hends
  ext word
  rw [mem_language_enclose, List.map_map]
  exact Splice.path_chain hparts Nat.one_pos (le_refl _)

/-- The words accepted by automata side by side are the words of any of them. -/
theorem language_disjunction (hmembers : ∀ A ∈ members, A.WellFormed)
    (h : disjunction members = .ok B) : B.language = (members.map language).sum := by
  rcases disjunction_eq_ok_iff.1 h with ⟨parts, rfl, hends, rfl⟩
  have hparts := Splice.Located.of_members hmembers hends
  ext word
  rw [mem_language_enclose, List.map_map]
  exact Splice.path_fan hparts Nat.one_pos (le_refl _)

end Automaton

end FiniteState
