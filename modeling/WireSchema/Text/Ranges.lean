/-! Sets of code points, given as ascending ranges. -/

namespace WireSchema.Text

/-- Whether a number lies in one of some ascending ranges, both ends included. -/
def inRanges (n : Nat) : List (Nat × Nat) → Bool
  | [] => false
  | (low, high) :: rest => low ≤ n && (n ≤ high || inRanges n rest)

end WireSchema.Text
