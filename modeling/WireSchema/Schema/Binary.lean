import WireSchema.Bytes.Primitive
import WireSchema.Bytes.Writing
import WireSchema.Schema.Types
import WireSchema.Text.Quoted

/-! The binary form of schemas. It is a count and that many definitions; a definition is its name, a
byte for its kind, and a count and that many fields; a field is its name, the id of its type, a byte
of flags and its value. Packages and places in the text are not kept. -/

namespace WireSchema

namespace Schema

/-- Why bytes are no schema, or a schema has no binary form. -/
inductive BinaryError
  | buffer (e : BufferError)
  | badKind (kind : UInt8) (definition : String)
  | badFlags (flags : UInt8) (field : String)
  | notDeprecatable (field : String)
  | outOfRange (value : UInt32) (field : String)
  | trailing (bytes : Nat)
  | badType (id : Int32) (field : String)
  | unknownType (type field : String)
  | negativeId (id : Int32) (field : String)
  deriving DecidableEq

/-- A byte in hexadecimal, with at least two digits. -/
def hexByte (b : UInt8) : String :=
  String.ofList ['0', 'x', Text.hexDigit (b.toNat / 16), Text.hexDigit (b.toNat % 16)]

open Text in
def BinaryError.message : BinaryError → String
  | buffer e => e.message
  | badKind kind definition => s!"Invalid kind {kind} for definition {quoteJson definition}"
  | badFlags flags field => s!"Invalid flags {hexByte flags} for field {quoteJson field}"
  | notDeprecatable field => s!"Field {quoteJson field} cannot be deprecated outside a message"
  | outOfRange value field => s!"Value {value} for field {quoteJson field} is out of range"
  | trailing bytes => s!"{bytes} trailing byte(s) after the last definition"
  | badType id field => s!"Invalid type {id.toInt} for field {quoteJson field}"
  | unknownType type field =>
    s!"The type {quoteJson type} is not defined for field {quoteJson field}"
  | negativeId id field => s!"Negative id {id.toInt} for field {quoteJson field}"

instance : MonadLift (Reader BufferError) (Reader BinaryError) := ⟨Reader.mapError .buffer⟩

/-! ### Reading -/

/-- A field with its type still an id. -/
structure RawField where
  name : String
  typeId : Int32
  flags : UInt8
  value : UInt32
  deriving DecidableEq

structure RawDefinition where
  name : String
  kind : Kind
  fields : List RawField
  deriving DecidableEq

/-- The flag bits: 1 for an array, 2 for a deprecated field. -/
def RawField.isArray (f : RawField) : Bool := f.flags.toNat % 2 = 1

def RawField.isDeprecated (f : RawField) : Bool := f.flags.toNat / 2 % 2 = 1

def kindOf? (b : UInt8) : Option Kind := [Kind.enum, .struct, .message][b.toNat]?

/-- What a field of a definition of some kind must not say. -/
def RawField.check (kind : Kind) (f : RawField) : Except BinaryError Unit :=
  if 4 ≤ f.flags.toNat then .error (.badFlags f.flags f.name)
  else if f.isDeprecated ∧ kind ≠ .message then .error (.notDeprecatable f.name)
  else if kind = .message ∧ 0x80000000 ≤ f.value.toNat then .error (.outOfRange f.value f.name)
  else .ok ()

def readField (kind : Kind) : Reader BinaryError RawField := do
  let name ← Reader.string
  let typeId ← Reader.int
  let flags ← Reader.byte
  let value ← Reader.uint
  let field : RawField := ⟨name, typeId, flags, value⟩
  match field.check kind with
  | .ok () => pure field
  | .error e => Reader.fail e

def readDefinition : Reader BinaryError RawDefinition := do
  let name ← Reader.string
  let byte ← Reader.byte
  match kindOf? byte with
  | none => Reader.fail (.badKind byte name)
  | some kind =>
    let count ← Reader.uint
    let fields ← (readField kind).times count.toNat
    return ⟨name, kind, fields⟩

/-- All definitions, to the end of the bytes. -/
def readDefinitions : Reader BinaryError (List RawDefinition) := do
  let count ← Reader.uint
  let definitions ← readDefinition.times count.toNat
  let c ← Reader.cursor
  if 0 < c.remaining then Reader.fail (.trailing c.remaining)
  return definitions

/-- The name of the type that a field's id stands for, among definitions of some names. -/
def RawField.typeName (names : List String) (f : RawField) : Except BinaryError String :=
  match TypeRef.ofId? f.typeId names.length with
  | none => .error (.badType f.typeId f.name)
  | some type =>
    match type with
    | .definition index => .ok (names[index]?.getD "")
    | primitive => .ok (primitive.name?.getD "")

/-- A field with its type named; an entry of an enum has none, whatever its id. -/
def RawField.resolve (names : List String) (kind : Kind) (f : RawField) :
    Except BinaryError Field := do
  let typeName ← match kind with
    | .enum => pure none
    | _ => do pure (some (← f.typeName names))
  return ⟨f.name, .none, typeName, f.isArray, f.isDeprecated, f.value.toInt32⟩

def RawDefinition.resolve (names : List String) (d : RawDefinition) :
    Except BinaryError Definition := do
  return ⟨d.name, .none, d.kind, ← d.fields.mapM (RawField.resolve names d.kind)⟩

/-- The schema of its binary form. -/
def ofBinary (bytes : List UInt8) : Noted BinaryError Schema :=
  let read := readDefinitions (Cursor.start bytes)
  match read.result with
  | .error e => Noted.fail e
  | .ok raw =>
    match raw.mapM (RawDefinition.resolve (raw.map (·.name))) with
    | .error e => Noted.fail e
    | .ok definitions => do
      Noted.note (.schemaDecoded definitions.length)
      return ⟨none, definitions⟩

/-! ### Writing -/

def byteOf : Kind → UInt8
  | .enum => 0
  | .struct => 1
  | .message => 2

/-- The id of a field's type; 0 where there is none. -/
def Field.typeId (s : Schema) (f : Field) : Except BinaryError Int32 :=
  match f.typeName with
  | none => .ok 0
  | some name =>
    match s.typeOf? name with
    | some type => .ok type.id
    | none => .error (.unknownType name f.name)

def Field.flags (f : Field) : UInt8 :=
  (if f.isArray then 1 else 0) + (if f.isDeprecated then 2 else 0)

/-- The value of a field at a place of a definition: of a struct field, its place counted from 1. -/
def Field.valueAt (kind : Kind) (place : Nat) (f : Field) : Int32 :=
  match kind with
  | .struct => Int32.ofInt (place + 1)
  | _ => f.value

def Field.write (s : Schema) (kind : Kind) (place : Nat) (f : Field) : Writing BinaryError :=
  let value := f.valueAt kind place
  Writing.bytes (Wire.string f.name) ++
    match f.typeId s with
    | .error e => Writing.fail e
    | .ok id =>
      Writing.bytes (Wire.int id ++ [f.flags]) ++
        if kind = .message ∧ value.toInt < 0 then Writing.fail (.negativeId value f.name)
        else Writing.bytes (Wire.uint value.toUInt32)

def Definition.write (s : Schema) (d : Definition) : Writing BinaryError :=
  Writing.bytes (Wire.string d.name ++ [byteOf d.kind] ++ Wire.count d.fields) ++
    Writing.concat (d.fields.zipIdx.map fun (f, place) => f.write s d.kind place)

def toBinary (s : Schema) : Noted BinaryError (List UInt8) :=
  let w := Writing.bytes (Wire.count s.definitions) ++
    Writing.concat (s.definitions.map (Definition.write s))
  match w.result with
  | .error e => Noted.fail e
  | .ok () => do
    Noted.note (.schemaEncoded s.definitions.length w.written.length)
    return w.written

end Schema

end WireSchema
