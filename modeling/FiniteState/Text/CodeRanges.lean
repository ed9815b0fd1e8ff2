/-!
# Classes of Characters

A class of characters is written down as the closed ranges of code points it consists of. The
tables of the modules beside this one are all of that form.

## Main definitions

* `inRanges`: Membership in a class.

## Theorems

* `inRanges_eq_true_iff`: Membership is lying in one of the ranges.
-/

namespace FiniteState

namespace Text

/-- Whether the code point of a character lies in one of the closed ranges. -/
def inRanges (ranges : List (Nat × Nat)) (c : Char) : Bool :=
  ranges.any fun range => range.1 ≤ c.toNat && c.toNat ≤ range.2

theorem inRanges_eq_true_iff {ranges : List (Nat × Nat)} {c : Char} :
    inRanges ranges c = true ↔ ∃ range ∈ ranges, range.1 ≤ c.toNat ∧ c.toNat ≤ range.2 := by
  simp [inRanges]

end Text

end FiniteState
