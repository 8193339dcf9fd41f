import WireSchema.Number.Binary32

/-! Numbers of the 64-bit binary format, with the few operations that numerals need: rounding whole
numbers, multiplying and dividing magnitudes, and moving to and from the 32-bit format. -/

namespace WireSchema

/-- One sign bit, eleven exponent bits and 52 fraction bits. -/
structure Binary64 where
  bits : UInt64
  deriving DecidableEq

namespace Binary64

/-- 53 bits of significand, eleven of exponent. -/
def format : Format := ⟨53, 11⟩

def negative (x : Binary64) : Bool := 0x8000000000000000 ≤ x.bits.toNat

/-- The bits below the sign. -/
def magnitude (x : Binary64) : Nat := x.bits.toNat % 0x8000000000000000

def ofMagnitude (negative : Bool) (magnitude : Nat) : Binary64 :=
  ⟨UInt64.ofNat
    ((if negative then 0x8000000000000000 else 0) + magnitude % 0x8000000000000000)⟩

def isFinite (x : Binary64) : Bool := x.magnitude < format.infinity

/-- The number nearest to a whole number. -/
def ofInt (n : Int) : Binary64 := ofMagnitude (n < 0) (format.round n.natAbs 1)

/-- The packed product of two finite packed magnitudes, rounded. -/
def mul (x y : Nat) : Nat :=
  let (a, b) := format.ratio x
  let (c, d) := format.ratio y
  format.round (a * c) (b * d)

/-- The packed quotient of two finite packed magnitudes, rounded. -/
def div (x y : Nat) : Nat :=
  let (a, b) := format.ratio x
  let (c, d) := format.ratio y
  format.round (a * d) (b * c)

/-- The nearest number of the 32-bit format, infinity where a magnitude is too great for it. -/
def narrow (x : Binary64) : Binary32 :=
  if x.isFinite then
    let (n, d) := format.ratio x.magnitude
    Binary32.ofMagnitude x.negative (Binary32.format.round n d)
  else
    Binary32.ofMagnitude x.negative
      (Binary32.format.infinity + (x.magnitude - format.infinity) >>> 29)

end Binary64

def Binary32.widen (x : Binary32) : Binary64 :=
  if x.isFinite then
    let (n, d) := format.ratio x.magnitude
    Binary64.ofMagnitude x.negative (Binary64.format.round n d)
  else
    Binary64.ofMagnitude x.negative
      (Binary64.format.infinity + (x.magnitude - format.infinity) <<< 29)

end WireSchema
