import WireSchema.Number.Binary64

/-! JSON documents. An object keeps its members in the order in which their names first came; a
number is whole and kept exactly, or a float. -/

namespace WireSchema

/-- A number: a whole one of 64 bits, signed or unsigned, or a float. -/
inductive Json.Number
  | integer (n : Int)
  | real (x : Binary64)
  deriving DecidableEq

inductive Json
  | null
  | bool (b : Bool)
  | number (n : Json.Number)
  | string (s : String)
  | array (items : List Json)
  | object (members : List (String × Json))
  deriving Inhabited

namespace Json

/-- Gives some members one more; one of the same name is replaced where it stands. -/
def setMember (name : String) (value : Json) : List (String × Json) → List (String × Json)
  | [] => [(name, value)]
  | (n, v) :: rest =>
    if n == name then (n, value) :: rest else (n, v) :: setMember name value rest

def int (n : Int) : Json := number (.integer n)

def ofNat (n : Nat) : Json := int n

def Number.toReal : Number → Binary64
  | integer n => Binary64.ofInt n
  | real x => x

end Json

end WireSchema
