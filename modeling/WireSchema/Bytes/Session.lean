import WireSchema.Bytes.Primitive

/-! Sessions: primitives written one after the other to the end of one sequence of bytes, and read
one after the other from one cursor. -/

namespace WireSchema

/-- A kind of primitive to read; of raw bytes, also how many. -/
inductive Primitive.Kind
  | bool
  | byte
  | bytes (n : Nat)
  | byteArray
  | int
  | uint
  | float
  | string
  deriving DecidableEq

/-- A primitive as it was read or is to be written. -/
inductive Primitive
  | bool (b : Bool)
  | byte (b : UInt8)
  | bytes (bs : List UInt8)
  | byteArray (bs : List UInt8)
  | int (n : Int32)
  | uint (n : UInt32)
  | float (x : Binary32)
  | string (s : String)
  deriving DecidableEq

namespace Primitive

/-- What a primitive adds to the bytes before it. -/
def encode : Primitive → List UInt8
  | .bool b => Wire.bool b
  | .byte b => [b]
  | .bytes bs => bs
  | .byteArray bs => Wire.byteArray bs
  | .int n => Wire.int n
  | .uint n => Wire.uint n
  | .float x => Wire.float x
  | .string s => Wire.string s

/-- The kind of read that reads a primitive back. -/
def kind : Primitive → Kind
  | .bool _ => .bool
  | .byte _ => .byte
  | .bytes bs => .bytes bs.length
  | .byteArray _ => .byteArray
  | .int _ => .int
  | .uint _ => .uint
  | .float _ => .float
  | .string _ => .string

def encodeAll (ps : List Primitive) : List UInt8 := ps.flatMap encode

end Primitive

def Reader.primitive : Primitive.Kind → Reader BufferError Primitive
  | .bool => return .bool (← Reader.bool)
  | .byte => return .byte (← Reader.byte)
  | .bytes n => return .bytes (← Reader.bytes n)
  | .byteArray => return .byteArray (← Reader.byteArray)
  | .int => return .int (← Reader.int)
  | .uint => return .uint (← Reader.uint)
  | .float => return .float (← Reader.float)
  | .string => return .string (← Reader.string)

/-- Reads primitives one after the other, going on after a failure from where it left the cursor. -/
def Reader.primitives (kinds : List Primitive.Kind) :
    Cursor → List (Outcome BufferError Primitive) :=
  Reader.session (kinds.map Reader.primitive)

end WireSchema
