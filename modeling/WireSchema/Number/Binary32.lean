import WireSchema.Number.Format

/-! Numbers of the 32-bit binary format, kept as their bits, so that every NaN and both zeros stay
distinct. -/

namespace WireSchema

/-- One sign bit, eight exponent bits and 23 fraction bits. -/
structure Binary32 where
  bits : UInt32
  deriving DecidableEq

namespace Binary32

/-- 24 bits of significand, eight of exponent. -/
def format : Format := ⟨24, 8⟩

def zero : Binary32 := ⟨0⟩

def negative (x : Binary32) : Bool := 0x80000000 ≤ x.bits.toNat

/-- The bits below the sign. -/
def magnitude (x : Binary32) : Nat := x.bits.toNat % 0x80000000

def ofMagnitude (negative : Bool) (magnitude : Nat) : Binary32 :=
  ⟨UInt32.ofNat ((if negative then 0x80000000 else 0) + magnitude % 0x80000000)⟩

def isFinite (x : Binary32) : Bool := x.magnitude < format.infinity

def isNaN (x : Binary32) : Bool := format.infinity < x.magnitude

/-- The exponent field; it is zero for both zeros and for the magnitudes too small for a leading
one. -/
def exponentField (x : Binary32) : Nat := x.magnitude / 0x800000

/-- Whether the numbers are equal: no NaN equals anything, and the two zeros are one number. -/
def equal (x y : Binary32) : Bool :=
  !x.isNaN && !y.isNaN && (x == y || (x.magnitude == 0 && y.magnitude == 0))

end Binary32

end WireSchema
