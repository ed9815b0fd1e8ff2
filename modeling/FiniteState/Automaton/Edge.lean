import Std.Data.ExtTreeSet

/-!
# Symbols and Edges

The symbols that automata read are the characters with code points 1 to 255. An edge leads from one
state to another under a label, which is a symbol or nothing at all: an edge without a symbol is an
epsilon edge, followed without reading.

Edges are ordered by source, then target, then label, with epsilon before every symbol. A set of
edges is kept in that order, so equal sets of edges are equal values.

## Main definitions

* `isSymbol`: Whether a character may label an edge.
* `symbols`: All symbols in ascending order.
* `Edge`: A labelled edge between two states.
* `Edge.epsilon`: An edge without a symbol.
* `Edge.shift`, `Edge.flip`: Renumbering by an offset, and turning around.
* `Edge.triple`: An edge as it is handed in from outside.

## Theorems

* `mem_symbols`: The list of symbols holds the symbols.
* `Edge.compare_def`: The order of edges.
* `Edge.mem_ofList`: The set of a list has the members of the list.
-/

namespace FiniteState

/-- Whether a character may label an edge. -/
def isSymbol (c : Char) : Bool :=
  1 ≤ c.toNat && c.toNat ≤ 255

/-- All symbols in ascending order. -/
def symbols : List Char :=
  (List.range' 1 255).map Char.ofNat

theorem isSymbol_eq_true_iff {c : Char} : isSymbol c = true ↔ 1 ≤ c.toNat ∧ c.toNat ≤ 255 := by
  simp [isSymbol]

theorem toNat_ofNat {code : Nat} (h : code.isValidChar) : (Char.ofNat code).toNat = code := by
  rw [Char.ofNat, dif_pos h]
  rfl

theorem mem_symbols {c : Char} : c ∈ symbols ↔ isSymbol c = true := by
  simp only [symbols, List.mem_map, List.mem_range'_1, isSymbol_eq_true_iff]
  constructor
  · intro h
    rcases h with ⟨code, hcode, rfl⟩
    have hcode' := toNat_ofNat (Or.inl (by omega) : code.isValidChar)
    omega
  · intro h
    exact ⟨c.toNat, by omega, Char.ofNat_toNat c⟩

/-- An edge from one state to another. Without a label it is an epsilon edge. -/
structure Edge where
  source : Nat
  target : Nat
  label : Option Char
deriving DecidableEq

namespace Edge

/-- Edges are ordered by source, then target, then label. -/
instance : Ord Edge where
  compare := compareLex (compareOn source) (compareLex (compareOn target) (compareOn label))

instance : Std.TransOrd Edge :=
  inferInstanceAs (Std.TransCmp
    (compareLex (compareOn source) (compareLex (compareOn target) (compareOn label))))

theorem compare_def (e f : Edge) :
    compare e f =
      (compare e.source f.source).then
        ((compare e.target f.target).then (compare e.label f.label)) := rfl

instance : Std.LawfulEqOrd Edge where
  eq_of_compare {e f} h := by
    obtain ⟨s, t, l⟩ := e
    obtain ⟨s', t', l'⟩ := f
    simp only [compare_def, Ordering.then_eq_eq, Nat.compare_eq_eq] at h
    obtain ⟨rfl, rfl, hl⟩ := h
    rw [Std.LawfulEqCmp.eq_of_compare hl]

/-- The epsilon edge from one state to another. -/
def epsilon (source target : Nat) : Edge :=
  ⟨source, target, none⟩

/-- The edge between states renumbered by an offset. -/
def shift (offset : Nat) (e : Edge) : Edge :=
  ⟨e.source + offset, e.target + offset, e.label⟩

/-- The edge turned around. -/
def flip (e : Edge) : Edge :=
  ⟨e.target, e.source, e.label⟩

/-- The edge as a triple of source, label and target, with the label as a text. -/
def triple (e : Edge) : Int × String × Int :=
  (e.source, String.ofList e.label.toList, e.target)

@[simp] theorem flip_flip (e : Edge) : e.flip.flip = e := rfl

theorem mem_ofList {edges : List Edge} {e : Edge} :
    e ∈ Std.ExtTreeSet.ofList edges ↔ e ∈ edges := by
  simp [Std.ExtTreeSet.mem_ofList]

end Edge

end FiniteState
