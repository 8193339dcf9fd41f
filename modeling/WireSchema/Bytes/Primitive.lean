import WireSchema.Bytes.Varint
import WireSchema.Number.Binary32
import WireSchema.Text.Utf8

/-! The primitives of the format. A truth value is the byte 0 or 1. A float is its bits turned so
that the exponent comes first, in four bytes, least significant first; if the exponent field is
zero, one zero byte stands for it. A text is its UTF-8 bytes and a zero byte. A byte array is its
length and its bytes. -/

namespace WireSchema

namespace Binary32

/-- The bits with the exponent field lowest, then the sign, then the fraction. -/
def exponentFirst (x : Binary32) : Nat :=
  x.bits.toNat / 0x800000 + x.bits.toNat % 0x800000 * 0x200

def ofExponentFirst (n : Nat) : Binary32 := ⟨UInt32.ofNat (n / 0x200 + n % 0x200 * 0x800000)⟩

end Binary32

/-! ### The bytes of primitives -/

namespace Wire

def bool (b : Bool) : List UInt8 := [if b then 1 else 0]

def int (n : Int32) : List UInt8 := Varint.encode (Varint.zigzag n)

def uint (n : UInt32) : List UInt8 := Varint.encode n

/-- The length of a list, modulo `2^32`. -/
def count {α : Type} (xs : List α) : List UInt8 := Varint.encode (UInt32.ofNat xs.length)

/-- Four bytes, least significant first. -/
def littleEndian (n : Nat) : List UInt8 :=
  [UInt8.ofNat n, UInt8.ofNat (n / 0x100), UInt8.ofNat (n / 0x10000), UInt8.ofNat (n / 0x1000000)]

def float (x : Binary32) : List UInt8 :=
  if x.exponentField = 0 then [0] else littleEndian x.exponentFirst

def byteArray (bs : List UInt8) : List UInt8 := count bs ++ bs

def string (s : String) : List UInt8 := Utf8.encode s ++ [0]

end Wire

/-! ### Reading primitives -/

namespace Reader

/-- A truth value; any byte but 0 and 1 is refused, after it has been read. -/
def bool : Reader BufferError Bool := do
  let c ← cursor
  let b ← byte
  if b = 0 then pure false
  else if b = 1 then pure true
  else fail (.invalidBool c.offset b)

def byteArray : Reader BufferError (List UInt8) := do
  let n ← uint
  bytes n.toNat

/-- The number that bytes stand for, least significant first. -/
def ofLittleEndian : List UInt8 → Nat
  | [] => 0
  | b :: rest => b.toNat + 256 * ofLittleEndian rest

def float : Reader BufferError Binary32 := do
  let first ← byte
  if first = 0 then pure Binary32.zero
  else do
    let rest ← bytes 3
    return Binary32.ofExponentFirst (ofLittleEndian (first :: rest))

/-- The text before the next zero byte. Without a zero byte, one more byte than there are would be
needed, and none is consumed. -/
def string : Reader BufferError String := fun c =>
  let content := c.rest.takeWhile (· ≠ 0)
  if content.length < c.remaining then
    ⟨.ok (Utf8.decodeLossy content), c.advance (content.length + 1), []⟩
  else underflow (c.remaining + 1) c

end Reader

end WireSchema
