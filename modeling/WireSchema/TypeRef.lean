/-! Types of fields: six primitives, or a definition given by its place. Each type has an id in
binary schemas: the primitives count down from -1, a definition is its place. -/

namespace WireSchema

/-- A type that a field can have. -/
inductive TypeRef
  | bool
  | byte
  | int
  | uint
  | float
  | string
  /-- The definition at a place, which need not exist. -/
  | definition (index : Nat)
  deriving DecidableEq

namespace TypeRef

/-- The primitives with their names, in the order of their ids. -/
def primitives : List (String × TypeRef) :=
  [("bool", bool), ("byte", byte), ("int", int), ("uint", uint), ("float", float),
    ("string", string)]

def ofName? (name : String) : Option TypeRef := primitives.lookup name

def isPrimitiveName (name : String) : Bool := (ofName? name).isSome

def name? : TypeRef → Option String
  | bool => some "bool"
  | byte => some "byte"
  | int => some "int"
  | uint => some "uint"
  | float => some "float"
  | string => some "string"
  | definition _ => none

/-- The id of a type; the place of a definition counts modulo `2^32`. -/
def id : TypeRef → Int32
  | bool => -1
  | byte => -2
  | int => -3
  | uint => -4
  | float => -5
  | string => -6
  | definition index => Int32.ofInt index

/-- The type with an id, where there are `count` definitions. -/
def ofId? (id : Int32) (count : Nat) : Option TypeRef :=
  if id.toInt < 0 then (primitives[(-1 - id.toInt).toNat]?).map (·.2)
  else if id.toInt.toNat < count then some (definition id.toInt.toNat)
  else none

end TypeRef

end WireSchema
