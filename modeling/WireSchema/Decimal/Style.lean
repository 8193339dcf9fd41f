import WireSchema.Decimal.Shortest
import WireSchema.Number.Binary64

/-! The written form of a number: its shortest decimal, with a point where the decimal is of
moderate size and with an exponent elsewhere. -/

namespace WireSchema.Decimal

/-- How numbers are written: the least and the greatest place of the leading digit that is written
with a point, how ties between two shortest decimals go, and whether a positive exponent shows its
sign. -/
structure Style where
  least : Int
  greatest : Int
  tie : Tie
  plus : Bool

/-- `d.ddd × 10 ^ place` without a point where there is one digit only. -/
def withExponent (plus : Bool) (digits : List Char) (place : Int) : String :=
  let point := match digits with
    | [d] => [d]
    | d :: rest => d :: '.' :: rest
    | [] => []
  let sign := if plus && 0 ≤ place then "+" else ""
  s!"{String.ofList point}e{sign}{place}"

/-- The digits with a point after the unit place, and at least one digit on either side of it. -/
def withPoint (digits : List Char) (place : Int) : String :=
  if place < 0 then
    "0." ++ String.ofList (List.replicate (-place - 1).toNat '0' ++ digits)
  else
    let units := digits ++ List.replicate (place.toNat + 2 - digits.length) '0'
    String.ofList (units.take (place.toNat + 1) ++ '.' :: units.drop (place.toNat + 1))

/-- A finite number of format `f`, given by its sign and its packed magnitude. -/
def Style.write (s : Style) (f : Format) (negative : Bool) (magnitude : Nat) : String :=
  let sign := if negative then "-" else ""
  if magnitude = 0 then sign ++ "0.0"
  else
    let x := shortest f s.tie magnitude
    let digits := (toString x.digits).toList
    let place := x.exponent + (digits.length : Int) - 1
    sign ++
      if s.least ≤ place ∧ place ≤ s.greatest then withPoint digits place
      else withExponent s.plus digits place

end WireSchema.Decimal
