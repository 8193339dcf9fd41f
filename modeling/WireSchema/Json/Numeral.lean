import WireSchema.Json.Basic

/-! The value of a JSON numeral. A whole number is kept exactly as long as 64 bits hold it.
Everything else becomes a float, by one multiplication or a few divisions by powers of ten of the
leading digits, each rounded; digits past what 64 bits hold count by their place only. -/

namespace WireSchema.Json

/-- A numeral in its parts: digits before the point, after it if there is one, and in the
exponent. -/
structure Numeral where
  negative : Bool
  units : List Nat
  fraction : Option (List Nat)
  exponent : Option (Bool × List Nat)
  deriving DecidableEq

namespace Numeral

/-- Appends digits to a number as long as 64 bits hold it; also answers how many digits are left. -/
def absorb (n : Nat) : List Nat → Nat × Nat
  | [] => (n, 0)
  | d :: rest => if n * 10 + d < UInt64.size then absorb (n * 10 + d) rest else (n, rest.length + 1)

def ofDigits (digits : List Nat) : Nat := digits.foldl (fun n d => n * 10 + d) 0

/-- A power of ten as a packed magnitude. -/
def powerOfTen (k : Nat) : Nat := Binary64.format.round (Nat.pow 10 k) 1

/-- A packed magnitude over a power of ten, divided by at most `10 ^ 308` at a time. -/
def scaleDown (x k : Nat) : Nat :=
  if k ≤ 308 then Binary64.div x (powerOfTen k)
  else if x = 0 then x
  else scaleDown (Binary64.div x (powerOfTen 308)) (k - 308)
termination_by k

/-- `n * 10 ^ k` as a packed magnitude, none if it is too great. -/
def scale? (n : Nat) (k : Int) : Option Nat :=
  let x := Binary64.format.round n 1
  if k < 0 then some (scaleDown x (-k).toNat)
  else if 308 < k then if x = 0 then some 0 else none
  else
    let y := Binary64.mul x (powerOfTen k.toNat)
    if y < Binary64.format.infinity then some y else none

/-- The float of a numeral, none if it is too great. -/
def toReal? (m : Numeral) : Option Binary64 := do
  let (n, unread) := absorb 0 m.units
  let fraction := m.fraction.getD []
  let (n, unreadFraction) := absorb n fraction
  let place : Int := unread - (fraction.length - unreadFraction : Nat)
  let magnitude ← match m.exponent with
    | none => scale? n place
    | some (down, digits) =>
      let e := ofDigits digits
      if 0x80000000 ≤ e then if n = 0 ∨ down then some 0 else none
      else scale? n (if down then place - e else place + e)
  return Binary64.ofMagnitude m.negative magnitude

/-- The value of a numeral, none if it is too great. Zero with a sign is a float. -/
def value? (m : Numeral) : Option Number :=
  let n := ofDigits m.units
  if m.fraction.isSome ∨ m.exponent.isSome then m.toReal?.map .real
  else if m.negative then
    if 0 < n ∧ n ≤ 0x8000000000000000 then some (.integer (-n)) else m.toReal?.map .real
  else if n < UInt64.size then some (.integer n)
  else m.toReal?.map .real

end Numeral

end WireSchema.Json
