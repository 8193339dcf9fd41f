import WireSchema.Bytes.Primitive
import WireSchema.Bytes.Writing
import WireSchema.Text.Quoted
import WireSchema.Value.Decode

/-! Writing values as types of a catalog. What is written follows the value; members of objects are
written in the order in which the definition declares its fields. -/

namespace WireSchema

/-- Why a value cannot be written as a type. -/
inductive EncodeError
  | unknownType (name : String)
  | missingField (definition field : String)
  | unknownField (definition field : String)
  | mismatch (expected found : String)
  | unknownEntry (type name : String)
  | zeroInString (text : String)
  deriving DecidableEq

def EncodeError.message : EncodeError → String
  | unknownType name => s!"Unknown type \"{name}\""
  | missingField definition field =>
    s!"Missing required field \"{field}\" in struct \"{definition}\""
  | unknownField definition field => s!"Field \"{field}\" is not defined in \"{definition}\""
  | mismatch expected found => s!"Expected {expected} but found {found}"
  | unknownEntry type name => s!"Invalid name \"{name}\" for enum \"{type}\""
  | zeroInString text =>
    s!"String {Text.quoteVisible text} contains a NUL byte, which terminates strings on the wire"

/-- Writing a value as a shape. -/
abbrev Shape.Writer := Shape → Writing EncodeError

namespace Catalog

variable (c : Catalog)

/-- The words for what a shape expects. -/
def shapeName : Shape → String
  | .one type => c.typeName type
  | .many type => c.typeName type ++ "[]"

/-- A text; the zero byte ends it, so it must not hold one. -/
def writeString (s : String) : Writing EncodeError :=
  if s.toList.contains (Char.ofNat 0) then Writing.fail (.zeroInString s)
  else Writing.bytes (Wire.string s)

def writeEntry (d : Definition) (entry : String) : Writing EncodeError :=
  match d.field? entry with
  | some f => Writing.bytes (Wire.uint f.value)
  | none => Writing.fail (.unknownEntry d.name entry)

/-- Fails if some member is no field of the definition. -/
def checkMembers (d : Definition) (members : List (String × Shape.Writer)) : Writing EncodeError :=
  match members.find? fun m => (d.indexOfName? m.1).isNone with
  | some m => Writing.fail (.unknownField d.name m.1)
  | none => Writing.empty

/-- A field of a struct, which has to be there. -/
def writeStructField (d : Definition) (members : List (String × Shape.Writer)) (f : Field) :
    Writing EncodeError :=
  match Table.get? f.name members with
  | some write => write f.shape
  | none => Writing.fail (.missingField d.name f.name)

/-- A field of a message, if it is there: its id and its value, or nothing if it is deprecated. -/
def writeMessageField (d : Definition) (members : List (String × Shape.Writer)) (f : Field) :
    Writing EncodeError :=
  match Table.get? f.name members with
  | some write =>
    if f.isDeprecated then Writing.note (.fieldOmitted d.name f.name)
    else Writing.bytes (Wire.uint f.value) ++ write f.shape
  | none => Writing.empty

/-- An object of a definition of its name, from the writers of its members. -/
def writeObject (d : Definition) (members : List (String × Shape.Writer)) : Writing EncodeError :=
  match d.kind with
  | .struct =>
    checkMembers d members ++ Writing.concat (d.fields.map (writeStructField d members))
  | .message =>
    checkMembers d members ++
      (Writing.concat (d.fields.map (writeMessageField d members)) ++ Writing.bytes (Wire.uint 0))
  | .enum => Writing.empty

mutual

/-- A value as a shape. -/
def write : Value → Shape.Writer
  | .array items, .many type => Writing.bytes (Wire.count items) ++ writeItems items type
  | .bool b, .one .bool => Writing.bytes (Wire.bool b)
  | .byte b, .one .byte => Writing.bytes [b]
  | .int n, .one .int => Writing.bytes (Wire.int n)
  | .uint n, .one .uint => Writing.bytes (Wire.uint n)
  | .float x, .one .float => Writing.bytes (Wire.float x)
  | .string s, .one .string => writeString s
  | .enum type entry, .one (.definition index) =>
    match c.definitions[index]? with
    | none => Writing.fail (.unknownType (nowhere index))
    | some d =>
      if d.kind = .enum ∧ type = d.name then writeEntry d entry
      else Writing.fail (.mismatch d.name (Value.enum type entry).kindName)
  | .object type members, .one (.definition index) =>
    let writers := memberWriters members
    match c.definitions[index]? with
    | none => Writing.fail (.unknownType (nowhere index))
    | some d =>
      if d.kind ≠ .enum ∧ type = d.name then writeObject d writers
      else Writing.fail (.mismatch d.name (Value.object type members).kindName)
  | v, .one (.definition index) =>
    match c.definitions[index]? with
    | none => Writing.fail (.unknownType (nowhere index))
    | some d => Writing.fail (.mismatch d.name v.kindName)
  | v, shape => Writing.fail (.mismatch (c.shapeName shape) v.kindName)

/-- The items of an array, one after the other. -/
def writeItems : List Value → TypeRef → Writing EncodeError
  | [], _ => Writing.empty
  | v :: rest, type => write v (.one type) ++ writeItems rest type

def memberWriters : List (String × Value) → List (String × Shape.Writer)
  | [] => []
  | (name, v) :: rest => (name, fun shape => write v shape) :: memberWriters rest

end

def writeValue (v : Value) (type : TypeRef) : Writing EncodeError := c.write v (.one type)

def writeField (v : Value) (f : Field) : Writing EncodeError := c.write v f.shape

/-- The bytes that stand for a value of a type. -/
def encodeAs (type : TypeRef) (v : Value) : Noted EncodeError (List UInt8) :=
  (c.writeValue v type).toNoted

/-- The bytes that stand for a value of the type of a name. -/
def encode (typeName : String) (v : Value) : Noted EncodeError (List UInt8) :=
  match c.typeOf? typeName with
  | some type => c.encodeAs type v
  | none => Noted.fail (.unknownType typeName)

end Catalog

end WireSchema
