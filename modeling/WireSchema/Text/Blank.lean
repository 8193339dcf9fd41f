import WireSchema.Text.Ranges

/-! White space: the code points with the Unicode property `White_Space`. -/

namespace WireSchema.Text

/-- The code points of white space. -/
def blankRanges : List (Nat × Nat) :=
  [(0x9, 0xD), (0x20, 0x20), (0x85, 0x85), (0xA0, 0xA0), (0x1680, 0x1680), (0x2000, 0x200A),
   (0x2028, 0x2029), (0x202F, 0x202F), (0x205F, 0x205F), (0x3000, 0x3000)]

-- The property holds of 25 code points.
example : (blankRanges.map fun r => r.2 - r.1 + 1).sum = 25 := by decide

def isBlank (c : Char) : Bool := inRanges c.toNat blankRanges

end WireSchema.Text
