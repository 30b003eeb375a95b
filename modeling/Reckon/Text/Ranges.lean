/-!
# Sets of characters given by ranges

A property of characters is tabulated as closed ranges of code points.
-/

namespace Reckon.Text

/-- Closed ranges of code points, in increasing order. -/
abbrev Ranges := List (Nat × Nat)

/-- A code point lies in one of the ranges. -/
def Ranges.has (ranges : Ranges) (point : Nat) : Bool :=
  ranges.any fun (low, high) => low ≤ point && point ≤ high

theorem Ranges.has_iff {ranges : Ranges} {point : Nat} :
    ranges.has point = true ↔ ∃ range ∈ ranges, range.1 ≤ point ∧ point ≤ range.2 := by
  simp [Ranges.has]

end Reckon.Text
