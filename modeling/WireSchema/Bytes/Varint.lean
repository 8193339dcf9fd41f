import WireSchema.Bytes.Reader

/-! Variable-length integers: groups of seven bits, least significant first, one group a byte, with
the high bit set on every byte but the last. Signed numbers are first folded onto the unsigned ones,
so that numbers close to zero stay short. -/

namespace WireSchema

namespace Varint

/-- At most `k` groups of seven bits, as bytes. -/
def groups : Nat → Nat → List UInt8
  | 0, _ => []
  | k + 1, n =>
    if n < 128 then [UInt8.ofNat n] else UInt8.ofNat (128 + n % 128) :: groups k (n / 128)

/-- The shortest bytes that read as `n`; 32 bits fill at most five groups. -/
def encode (n : UInt32) : List UInt8 := groups 5 n.toNat

/-- 0, -1, 1, -2, 2, … onto 0, 1, 2, 3, 4, …. -/
def zigzag (n : Int32) : UInt32 :=
  if 0 ≤ n.toInt then UInt32.ofNat (2 * n.toInt.toNat)
  else UInt32.ofNat (2 * (-n.toInt).toNat - 1)

/-- The number that `zigzag` takes to `n`. -/
def unzigzag (n : UInt32) : Int32 :=
  if n.toNat % 2 = 0 then Int32.ofInt (n.toNat / 2) else Int32.ofInt (-(n.toNat / 2 : Nat) - 1)

end Varint

namespace Reader

/-- The number in the next group and those after it, at most `k` groups in all; the high bit of the
last group allowed counts for nothing. -/
def groups : Nat → Reader BufferError Nat
  | 0 => pure 0
  | k + 1 => do
    let b ← byte
    if b < 128 then pure b.toNat else return b.toNat % 128 + 128 * (← groups k)

/-- An unsigned number of one to five bytes, modulo `2^32`. -/
def uint : Reader BufferError UInt32 := do return UInt32.ofNat (← groups 5)

def int : Reader BufferError Int32 := do return Varint.unzigzag (← uint)

end Reader

end WireSchema
