import WireSchema.Number.Format

/-! The shortest decimal that reads back. The reals that round to a packed magnitude form an
interval around it. Of the decimals in the interval, one with the fewest digits is taken, of several
such the nearest, of two at the same distance the one that the caller's rule for ties names. -/

namespace WireSchema.Decimal

/-- Which of two decimals at the same distance is taken. -/
inductive Tie
  /-- The greater one. -/
  | up
  /-- The one whose last digit is even. -/
  | even
  deriving DecidableEq

/-- `digits * 10 ^ exponent`. -/
structure Scientific where
  digits : Nat
  exponent : Int
  deriving DecidableEq

/-- `10 ^ k`, or 1 if `k` is negative. -/
def tenTo (k : Int) : Nat := Nat.pow 10 k.toNat

/-- The greatest `k` with `10 ^ k ≤ n / d`, for positive `n` and `d`, found from the binary
logarithm, which leaves three candidates at most. -/
def floorLog10 (n d : Nat) : Int :=
  let k : Int := (Format.floorLog2 n d * 30103).fdiv 100000
  if reaches (k + 1) then k + 1 else if reaches k then k else k - 1
where
  reaches (k : Int) : Bool := d * tenTo k ≤ n * tenTo (-k)

/-- The reals that round to a magnitude, all over one denominator: the magnitude itself, the ends of
the interval around it, and whether the ends belong to it. -/
structure Interval where
  value : Nat
  low : Nat
  high : Nat
  denominator : Nat
  closed : Bool

/-- Half a step lies on either side; below a power of two the step is half as long. The ends round
to the magnitude if its significand is even. -/
def Interval.of (f : Format) (magnitude : Nat) : Interval :=
  let (m, e) := f.unpack magnitude
  let down := if m = f.fractions ∧ f.minExponent < e then 1 else 2
  let scale := 1 <<< (e - 2).toNat
  ⟨4 * m * scale, (4 * m - down) * scale, (4 * m + 2) * scale, 1 <<< (2 - e).toNat, m % 2 = 0⟩

def Interval.holds (i : Interval) (digits : Nat) (exponent : Int) : Bool :=
  let x := digits * tenTo exponent * i.denominator
  let unit := tenTo (-exponent)
  if i.closed then i.low * unit ≤ x && x ≤ i.high * unit else i.low * unit < x && x < i.high * unit

/-- The decimal to take of those with the last digit at `10 ^ exponent`, none if the interval holds
none. Only the two neighbours of the value can be nearest. -/
def Interval.on (i : Interval) (tie : Tie) (exponent : Int) : Option Nat :=
  let n := i.value * tenTo (-exponent)
  let d := i.denominator * tenTo exponent
  let below := n / d
  match i.holds below exponent, i.holds (below + 1) exponent with
  | true, true =>
    let r := 2 * (n % d)
    if r < d ∨ (r = d ∧ tie = .even ∧ below % 2 = 0) then some below else some (below + 1)
  | true, false => some below
  | false, true => some (below + 1)
  | false, false => none

/-- Drops trailing zeros of the digits, at most as many as the first argument says. -/
def Scientific.strip : Nat → Scientific → Scientific
  | 0, s => s
  | k + 1, s =>
    if s.digits % 10 = 0 ∧ s.digits ≠ 0 then strip k ⟨s.digits / 10, s.exponent + 1⟩ else s

/-- The first decimal found on grids from `10 ^ exponent` on, each ten times finer than the one
before; the last grid is taken as it is. -/
def Interval.search (i : Interval) (tie : Tie) : Nat → Int → Scientific
  | 0, exponent => ⟨(i.on tie exponent).getD 0, exponent⟩
  | grids + 1, exponent =>
    match i.on tie exponent with
    | some digits => (Scientific.mk digits exponent).strip 1
    | none => i.search tie grids (exponent - 1)

/-- The shortest decimal that rounds to a packed finite magnitude above zero; seventeen digits
always suffice. -/
def shortest (f : Format) (tie : Tie) (magnitude : Nat) : Scientific :=
  let i := Interval.of f magnitude
  i.search tie 17 (floorLog10 i.value i.denominator)

end WireSchema.Decimal
