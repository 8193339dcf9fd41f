/-! Binary floating-point formats. A finite magnitude is `significand * 2 ^ exponent`; packed, it is
the number of magnitudes below it, so that packed magnitudes are ordered as the magnitudes
themselves and the first one past the finite ones stands for infinity. `round` packs the magnitude
nearest to a quotient, a tie going to the even significand. -/

namespace WireSchema

/-- A binary format: the bits of a significand, the leading one included, and the bits of an
exponent. -/
structure Format where
  precision : Nat
  exponentBits : Nat
  deriving DecidableEq

namespace Format

/-- One more than the greatest fraction field. -/
def fractions (f : Format) : Nat := 1 <<< (f.precision - 1)

/-- The exponent of the least magnitude above zero. -/
def minExponent (f : Format) : Int := 3 - (1 <<< (f.exponentBits - 1) : Nat) - f.precision

/-- Infinity, packed. -/
def infinity (f : Format) : Nat := (1 <<< f.exponentBits - 1) * f.fractions

/-- The significand and the exponent of a packed finite magnitude. -/
def unpack (f : Format) (magnitude : Nat) : Nat × Int :=
  if magnitude < f.fractions then (magnitude, f.minExponent)
  else (f.fractions + magnitude % f.fractions, f.minExponent + (magnitude / f.fractions : Nat) - 1)

/-- The greatest `k` with `2 ^ k ≤ n / d`, for positive `n` and `d`. -/
def floorLog2 (n d : Nat) : Int :=
  let k : Int := (n.log2 : Int) - d.log2
  if d <<< k.toNat ≤ n <<< (-k).toNat then k else k - 1

/-- The whole number nearest to `n / d`, the even one of two. -/
def divideToEven (n d : Nat) : Nat :=
  let q := n / d
  let r := n % d
  if 2 * r < d ∨ (2 * r = d ∧ q % 2 = 0) then q else q + 1

/-- The packed magnitude nearest to `n / d`, the one with an even significand of two; infinity from
half a step past the greatest finite one on. -/
def round (f : Format) (n d : Nat) : Nat :=
  if n = 0 then 0
  else
    let e := max f.minExponent (floorLog2 n d - (f.precision - 1 : Nat))
    let q := divideToEven (n <<< (-e).toNat) (d <<< e.toNat)
    min f.infinity ((e - f.minExponent).toNat * f.fractions + q)

/-- A packed finite magnitude as a numerator over a denominator. -/
def ratio (f : Format) (magnitude : Nat) : Nat × Nat :=
  let (m, e) := f.unpack magnitude
  (m <<< e.toNat, 1 <<< (-e).toNat)

end Format

end WireSchema
