import HttpUri.Text.Basic

/-! Sets of code points given by ranges. -/
namespace HttpUri.Text

/-- The code point lies in one of the ranges, ends included. -/
def inRanges (ranges : List (Nat × Nat)) (n : Nat) : Bool :=
  ranges.any fun r => decide (r.1 ≤ n) && decide (n ≤ r.2)

end HttpUri.Text
