import WireSchema.Bytes.Primitive
import WireSchema.Catalog.Basic
import WireSchema.Value.Basic

/-! Reading values of the types of a catalog. Structs, messages and arrays may nest to a fixed
depth. The count of an array is held against what can follow it: elements that take bytes against
the bytes left, the others against a fixed limit. -/

namespace WireSchema

/-- Why bytes are no value of a type. -/
inductive DecodeError
  | buffer (e : BufferError)
  | unknownType (name : String)
  | unknownEntry (type : String) (value : UInt32)
  | trailing (bytes : Nat)
  | tooDeep
  | arrayTooLong (length : Nat)
  deriving DecidableEq

/-- The deepest nesting of structs, messages and arrays. -/
def maxDepth : Nat := 512

/-- The longest array of elements that take no bytes. -/
def maxZeroWidthLength : Nat := 65536

def DecodeError.message : DecodeError → String
  | buffer e => e.message
  | unknownType name => s!"Unknown type \"{name}\""
  | unknownEntry type value => s!"Invalid value {value} for enum \"{type}\""
  | trailing bytes => s!"{bytes} trailing byte(s) after the decoded value"
  | tooDeep => s!"Nesting exceeds the maximum depth of {maxDepth}"
  | arrayTooLong length =>
    s!"Array of {length} zero-width elements exceeds the limit of {maxZeroWidthLength}"

instance : MonadLift (Reader BufferError) (Reader DecodeError) := ⟨Reader.mapError .buffer⟩

/-- What is written in one piece: one value of a type, or a counted list of them. -/
inductive Shape
  | one (type : TypeRef)
  | many (type : TypeRef)
  deriving DecidableEq

def Catalog.Field.shape (f : Field) : Shape := if f.isArray then .many f.type else .one f.type

namespace Catalog

variable (c : Catalog)

def readEntry (d : Definition) : Reader DecodeError Value := do
  let value ← Reader.uint
  match d.fieldOfValue? value with
  | some f => pure (.enum d.name f.name)
  | none => Reader.fail (.unknownEntry d.name value)

/-- The count of an array, if as many elements can follow. -/
def readCount (type : TypeRef) : Reader DecodeError Nat := do
  let n ← Reader.uint
  let here ← Reader.cursor
  if c.isZeroWidth type then
    if maxZeroWidthLength < n.toNat then Reader.fail (.arrayTooLong n.toNat)
  else if here.remaining < n.toNat then
    Reader.fail (.buffer (.underflow here.offset n.toNat))
  return n.toNat

/-- The members of a struct, in order; `inner` reads the values of fields. -/
def readStruct (inner : Shape → Reader DecodeError Value) (d : Definition) :
    Reader DecodeError Value := do
  let members ← Reader.foldl
    (fun members (f : Field) => return Table.insert f.name (← inner f.shape) members) d.fields []
  return .object d.name members

/-- One member of a message, whose id has been read. A value of a deprecated field is dropped; of an
unknown field it is taken to be one number and skipped. -/
def readMember (inner : Shape → Reader DecodeError Value) (d : Definition) (id : UInt32)
    (members : List (String × Value)) : Reader DecodeError (List (String × Value)) := do
  match d.fieldOfValue? id with
  | some f =>
    let value ← inner f.shape
    if f.isDeprecated then
      Reader.note (.fieldDropped d.name f.name)
      return members
    else return Table.insert f.name value members
  | none =>
    let value ← Reader.uint
    Reader.note (.idSkipped d.name id value)
    return members

/-- The members of a message up to the id 0. Each takes a byte at least, so there are fewer than
bytes; where no byte is left, the id is missing. -/
def readMembers (inner : Shape → Reader DecodeError Value) (d : Definition) :
    Nat → List (String × Value) → Reader DecodeError (List (String × Value))
  | 0, members => do
    let _ ← Reader.uint
    return members
  | n + 1, members => do
    let id ← Reader.uint
    if id = 0 then return members
    else readMembers inner d n (← readMember inner d id members)

def readMessage (inner : Shape → Reader DecodeError Value) (d : Definition) :
    Reader DecodeError Value := do
  let here ← Reader.cursor
  return .object d.name (← readMembers inner d here.remaining [])

/-- A value of a shape; `inner` reads what lies one level deeper, and is missing at the deepest
level. -/
def readShape (inner : Option (Shape → Reader DecodeError Value)) : Shape → Reader DecodeError Value
  | .one .bool => return .bool (← Reader.bool)
  | .one .byte => return .byte (← Reader.byte)
  | .one .int => return .int (← Reader.int)
  | .one .uint => return .uint (← Reader.uint)
  | .one .float => return .float (← Reader.float)
  | .one .string => return .string (← Reader.string)
  | .one (.definition index) =>
    match c.definitions[index]? with
    | none => Reader.fail (.unknownType (nowhere index))
    | some d =>
      match d.kind, inner with
      | .enum, _ => readEntry d
      | _, none => Reader.fail .tooDeep
      | .struct, some inner => readStruct inner d
      | .message, some inner => readMessage inner d
  | .many type =>
    match inner with
    | none => Reader.fail .tooDeep
    | some inner => do
      let n ← c.readCount type
      return .array (← (inner (.one type)).times n)

/-- A value of a shape that nests at most `levels` deep. -/
def readWithin : Nat → Shape → Reader DecodeError Value
  | 0 => c.readShape none
  | levels + 1 => c.readShape (some (readWithin levels))

def readValue (type : TypeRef) : Reader DecodeError Value := c.readWithin maxDepth (.one type)

def readField (f : Field) : Reader DecodeError Value := c.readWithin maxDepth f.shape

/-- The value of a type that some bytes stand for, all of them. -/
def decodeAs (type : TypeRef) (bytes : List UInt8) : Noted DecodeError Value :=
  let o := c.readValue type (Cursor.start bytes)
  match o.result with
  | .error e => ⟨.error e, o.notes⟩
  | .ok v =>
    if o.cursor.remaining = 0 then ⟨.ok v, o.notes⟩
    else ⟨.error (.trailing o.cursor.remaining), o.notes⟩

/-- The value that some bytes stand for, of the type of a name. -/
def decode (typeName : String) (bytes : List UInt8) : Noted DecodeError Value :=
  match c.typeOf? typeName with
  | some type => c.decodeAs type bytes
  | none => Noted.fail (.unknownType typeName)

end Catalog

end WireSchema
