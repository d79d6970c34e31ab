/-!
# Sets of characters given by ranges

A property of the Unicode standard is written as a list of inclusive ranges of code points.
-/

namespace Colourway.Text

/-- Whether `n` lies in one of the inclusive ranges. -/
def inRanges (ranges : List (Nat × Nat)) (n : Nat) : Bool :=
  ranges.any fun r => r.1 ≤ n && n ≤ r.2

end Colourway.Text
