import WireSchema.Json.Printer
import WireSchema.Value.Decode
import WireSchema.Value.Text

/-! Values as JSON documents and back. An entry of an enum is a string of its name; structs and
messages are objects, and a member that is null counts as absent. Towards JSON the value leads, and
names of enums are dropped; back from JSON the type leads, and finds them again. Members that a
struct lacks are left for the writing of the value to report. -/

namespace WireSchema

/-- Why a value is no JSON document, or a document no value. -/
inductive JsonError
  | unknownType (name : String)
  | notRepresentable (number : String)
  | mismatch (expected : String) (found : Json)
  | notArray (type field : String) (found : Json)
  | unknownEntry (type : String) (found : Json)
  | unknownField (definition field : String)
  | nowhere (index : Nat)

def JsonError.message : JsonError → String
  | unknownType name => s!"Unknown type \"{name}\""
  | notRepresentable number => s!"Cannot represent {number} in JSON"
  | mismatch expected found => s!"Expected {expected} but found {found.print}"
  | notArray type field found =>
    s!"Expected {type}[] for field \"{field}\" but found {found.print}"
  | unknownEntry type found => s!"Invalid value {found.print} for enum \"{type}\""
  | unknownField definition field => s!"Field \"{field}\" is not defined in \"{definition}\""
  | nowhere index => s!"Unknown type #{index}"

namespace Catalog

variable (c : Catalog)

/-! ### From values -/

/-- The fields that a definition of a name declares, each name once. -/
def declaredNames (type : String) : List String :=
  match c.definition? type with
  | some d => (d.fields.map (·.name)).eraseDups
  | none => []

/-- The members of an object of a type: the declared ones in the order of their fields, then the
others in the order in which they come. -/
def arrange {α : Type} (type : String) (members : List (String × α)) : List (String × α) :=
  let declared := c.declaredNames type
  declared.filterMap (fun name => (Table.get? name members).map (name, ·)) ++
    members.filter fun m => !declared.contains m.1

/-- All members, if each is well. -/
def gather {α : Type} (members : List (String × Except JsonError α)) :
    Except JsonError (List (String × α)) :=
  members.mapM fun (name, member) => member.map (name, ·)

mutual

def toJson : Value → Except JsonError Json
  | .bool b => .ok (.bool b)
  | .byte b => .ok (Json.ofNat b.toNat)
  | .int n => .ok (Json.int n.toInt)
  | .uint n => .ok (Json.ofNat n.toNat)
  | .float x =>
    if x.isFinite then .ok (.number (.real x.widen)) else .error (.notRepresentable x.nonFiniteText)
  | .string s => .ok (.string s)
  | .array items => (itemsToJson items).map .array
  | .enum _ entry => .ok (.string entry)
  | .object type members => (gather (c.arrange type (membersToJson members))).map .object

def itemsToJson : List Value → Except JsonError (List Json)
  | [] => .ok []
  | v :: rest => do
    let first ← toJson v
    return first :: (← itemsToJson rest)

def membersToJson : List (String × Value) → List (String × Except JsonError Json)
  | [] => []
  | (name, v) :: rest => (name, toJson v) :: membersToJson rest

end

/-! ### To values -/

/-- The whole number of a document, if it is at least `low` and at most `high`. -/
def wholeOf? (low high : Int) : Json → Option Int
  | .number (.integer n) => if low ≤ n ∧ n ≤ high then some n else none
  | _ => none

/-- The value of a primitive type; none for definitions and if the document does not fit. -/
def primitiveOf? : TypeRef → Json → Option Value
  | .bool, .bool b => some (.bool b)
  | .byte, j => (wholeOf? 0 255 j).map fun n => .byte (UInt8.ofNat n.toNat)
  | .int, j => (wholeOf? (-0x80000000) 0x7FFFFFFF j).map fun n => .int (Int32.ofInt n)
  | .uint, j => (wholeOf? 0 0xFFFFFFFF j).map fun n => .uint (UInt32.ofNat n.toNat)
  | .float, .number n =>
    let x := n.toReal.narrow
    if x.isFinite then some (.float x) else none
  | .string, .string s => some (.string s)
  | _, _ => none

/-- The entry of an enum that a document names. -/
def entryOf? (d : Definition) : Json → Option Value
  | .string s => (d.field? s).map fun f => .enum d.name f.name
  | _ => none

mutual

/-- The value of a document as a shape; `field` is the name of the field that an array is for. -/
def ofJsonShape : Json → Shape → String → Except JsonError Value
  | .array items, .many type, _ => (itemsOfJson items type).map .array
  | j, .many type, field => .error (.notArray (c.typeName type) field j)
  | .object members, .one (.definition index), _ =>
    match c.definitions[index]? with
    | none => .error (.nowhere index)
    | some d =>
      if d.kind = .enum then .error (.unknownEntry d.name (.object members))
      else (membersOfJson d members []).map (.object d.name)
  | j, .one (.definition index), _ =>
    match c.definitions[index]? with
    | none => .error (.nowhere index)
    | some d =>
      if d.kind = .enum then
        match entryOf? d j with
        | some v => .ok v
        | none => .error (.unknownEntry d.name j)
      else .error (.mismatch d.name j)
  | j, .one type, _ =>
    match primitiveOf? type j with
    | some v => .ok v
    | none => .error (.mismatch (c.typeName type) j)

def itemsOfJson : List Json → TypeRef → Except JsonError (List Value)
  | [], _ => .ok []
  | j :: rest, type => do
    let first ← ofJsonShape j (.one type) ""
    return first :: (← itemsOfJson rest type)

/-- The members of an object of a definition, added to those before them. -/
def membersOfJson (d : Definition) : List (String × Json) → List (String × Value) →
    Except JsonError (List (String × Value))
  | [], members => .ok members
  | (name, j) :: rest, members =>
    match d.field? name with
    | none => .error (.unknownField d.name name)
    | some f =>
      match j with
      | .null => membersOfJson d rest members
      | _ => do
        let value ← ofJsonShape j f.shape f.name
        membersOfJson d rest (Table.insert f.name value members)

end

/-- The value of a document, of the type of a name. -/
def ofJson (typeName : String) (j : Json) : Except JsonError Value :=
  match c.typeOf? typeName with
  | some type => c.ofJsonShape j (.one type) ""
  | none => .error (.unknownType typeName)

end Catalog

end WireSchema
