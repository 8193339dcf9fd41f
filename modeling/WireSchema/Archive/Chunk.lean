import WireSchema.Bytes.Primitive

/-! Chunks: pieces of data one after the other, each behind its size in four bytes, lowest first. A
size of zero, or fewer than four bytes, ends them. -/

namespace WireSchema.Chunk

/-- A chunk that is announced but not there. -/
structure Overrun where
  index : Nat
  size : Nat
  remaining : Nat
  deriving DecidableEq

/-- The chunks from one on, the place of which is `index`; there are fewer of them than bytes. -/
def splitFrom : Nat → Nat → List UInt8 → Except Overrun (List (List UInt8))
  | 0, _, _ => .ok []
  | n + 1, index, bytes =>
    if bytes.length < 4 then .ok []
    else
      let size := Reader.ofLittleEndian (bytes.take 4)
      let rest := bytes.drop 4
      if size = 0 then .ok []
      else if rest.length < size then .error ⟨index, size, rest.length⟩
      else (splitFrom n (index + 1) (rest.drop size)).map (rest.take size :: ·)

def split (bytes : List UInt8) : Except Overrun (List (List UInt8)) :=
  splitFrom bytes.length 0 bytes

/-- A chunk behind its size. -/
def frame (content : List UInt8) : List UInt8 := Wire.littleEndian content.length ++ content

end WireSchema.Chunk
