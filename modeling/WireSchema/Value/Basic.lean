import WireSchema.Number.Binary32
import WireSchema.Table

/-! Values of any type of a catalog. Structs and messages are both objects, whose members are kept
as a table, in ascending order of their names; an entry of an enum is given by both names. -/

namespace WireSchema

inductive Value
  | bool (b : Bool)
  | byte (b : UInt8)
  | int (n : Int32)
  | uint (n : UInt32)
  | float (x : Binary32)
  | string (s : String)
  | array (items : List Value)
  | enum (type entry : String)
  | object (type : String) (members : List (String × Value))
  deriving Inhabited

namespace Value

/-! ### What a value holds, and a default for values of other kinds -/

def asBool : Value → Bool
  | bool b => b
  | _ => false

def asByte : Value → UInt8
  | byte b => b
  | _ => 0

def asInt : Value → Int32
  | int n => n
  | _ => 0

def asUInt : Value → UInt32
  | uint n => n
  | _ => 0

def asFloat : Value → Binary32
  | float x => x
  | _ => Binary32.zero

/-- The text of a string, or the name of an entry of an enum. -/
def asString : Value → String
  | string s => s
  | enum _ entry => entry
  | _ => ""

def asArray : Value → List Value
  | array items => items
  | _ => []

def size (v : Value) : Nat := v.asArray.length

/-! ### Arrays and objects; values of other kinds stay as they are -/

/-- Adds an item to the end of an array. -/
def push (v item : Value) : Value :=
  match v with
  | array items => array (items ++ [item])
  | _ => v

def get? (v : Value) (name : String) : Option Value :=
  match v with
  | object _ members => Table.get? name members
  | _ => none

/-- Gives an object a member, in place of the one of that name. -/
def set (v : Value) (name : String) (member : Value) : Value :=
  match v with
  | object type members => object type (Table.insert name member members)
  | _ => v

def erase (v : Value) (name : String) : Value :=
  match v with
  | object type members => object type (Table.erase name members)
  | _ => v

/-- What kind of value it is, in words. -/
def kindName : Value → String
  | bool _ => "bool"
  | byte _ => "byte"
  | int _ => "int"
  | uint _ => "uint"
  | float _ => "float"
  | string _ => "string"
  | array _ => "array"
  | enum type _ => s!"enum {type}"
  | object type _ => s!"object {type}"

/-- Why a value has no item at a place. -/
inductive IndexError
  | notArray (kindName : String)
  | outOfBounds (size index : Nat)
  deriving DecidableEq

def IndexError.message : IndexError → String
  | notArray kindName => s!"cannot index into {kindName}"
  | outOfBounds size index => s!"index out of bounds: the len is {size} but the index is {index}"

def item (v : Value) (index : Nat) : Except IndexError Value :=
  match v with
  | array items =>
    match items[index]? with
    | some item => .ok item
    | none => .error (.outOfBounds items.length index)
  | _ => .error (.notArray v.kindName)

/-! ### Equality -/

mutual

/-- Whether two values are equal: floats by number, everything else part by part. -/
def equal : Value → Value → Bool
  | bool a, bool b => a == b
  | byte a, byte b => a == b
  | int a, int b => a == b
  | uint a, uint b => a == b
  | float a, float b => a.equal b
  | string a, string b => a == b
  | array as, array bs => equalItems as bs
  | enum t a, enum u b => t == u && a == b
  | object t as, object u bs => t == u && equalMembers as bs
  | _, _ => false

def equalItems : List Value → List Value → Bool
  | [], [] => true
  | a :: as, b :: bs => equal a b && equalItems as bs
  | _, _ => false

def equalMembers : List (String × Value) → List (String × Value) → Bool
  | [], [] => true
  | (k, a) :: as, (l, b) :: bs => k == l && equal a b && equalMembers as bs
  | _, _ => false

end

end Value

end WireSchema
