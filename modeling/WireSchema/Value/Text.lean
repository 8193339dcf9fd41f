import WireSchema.Decimal.Style
import WireSchema.Text.Quoted
import WireSchema.Value.Basic

/-! Values as text for the reader's eye. -/

namespace WireSchema

/-- Numbers from `0.0001` to below `10 ^ 16` have a point, the others an exponent. -/
def Binary32.style : Decimal.Style := ⟨-4, 15, .up, false⟩

/-- The text of a number that is none or has no end. -/
def Binary32.nonFiniteText (x : Binary32) : String :=
  if x.isNaN then "NaN" else if x.negative then "-inf" else "inf"

def Binary32.toText (x : Binary32) : String :=
  if x.isFinite then style.write format x.negative x.magnitude else x.nonFiniteText

namespace Value

mutual

/-- An enum entry behind the name of its enum, an object as its name and its members in braces. -/
def toText : Value → String
  | bool b => toString b
  | byte b => toString b.toNat
  | int n => toString n.toInt
  | uint n => toString n.toNat
  | float x => x.toText
  | string s => Text.quoteVisible s
  | array items => "[" ++ ", ".intercalate (itemTexts items) ++ "]"
  | enum type entry => s!"{type}::{entry}"
  | object type members =>
    s!"{type} \x7b" ++ ", ".intercalate (memberTexts members) ++ "\x7d"

def itemTexts : List Value → List String
  | [] => []
  | v :: rest => v.toText :: itemTexts rest

def memberTexts : List (String × Value) → List String
  | [] => []
  | (name, v) :: rest => s!"{name}: {v.toText}" :: memberTexts rest

end

end Value

end WireSchema
