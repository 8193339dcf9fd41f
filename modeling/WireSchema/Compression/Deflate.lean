/-! DEFLATE. Compressed data is a sequence of bits, the lowest bit of each byte first, that holds
blocks up to one marked as the last; what follows is not looked at. A block is stored, or coded with
fixed or with its own prefix codes for literals, lengths and distances. Reading answers nothing for
damaged data; writing uses stored blocks. -/

namespace WireSchema.Deflate

/-- A step of reading, from the bits left to fewer. -/
abbrev Bits (α : Type) := StateT (List Bool) Option α

/-- The bits of a byte, lowest first. -/
def bitsOf (b : UInt8) : List Bool := (List.range 8).map b.toNat.testBit

namespace Bits

def bit : Bits Bool := do
  match ← get with
  | b :: rest => do set rest; pure b
  | [] => failure

/-- A number of `n` bits, lowest first. -/
def number : Nat → Bits Nat
  | 0 => pure 0
  | n + 1 => do
    let b ← bit
    return b.toNat + 2 * (← number n)

/-- Passes the bits left of a byte that has been begun. -/
def align : Bits Unit := modify fun bits => bits.drop (bits.length % 8)

def times {α : Type} (m : Bits α) : Nat → Bits (List α)
  | 0 => pure []
  | n + 1 => do
    let a ← m
    return a :: (← times m n)

end Bits

/-! ### Prefix codes -/

/-- A prefix code: the symbols with a code of one bit, of two bits, and so on, each in the order of
their codes. -/
abbrev Code := List (List Nat)

/-- The code in which symbol `i` has a code of `lengths[i]` bits, 0 for none. -/
def Code.ofLengths (lengths : List Nat) : Code :=
  (List.range 15).map fun l =>
    (lengths.zipIdx.filter fun p => p.1 = l + 1).map (·.2)

/-- The share of all sequences of 15 bits that begin with a code, in units of one such sequence. -/
def Code.share (code : Code) : Nat :=
  code.zipIdx.foldl (fun n (symbols, i) => n + symbols.length <<< (14 - i)) 0

/-- Whether every sequence begins with exactly one code. -/
def Code.isComplete (code : Code) : Bool := code.share = 0x8000

/-- Whether a block may bring a code: it is complete, or has no symbol, or a single one of one
bit. -/
def Code.isUsable (code : Code) : Bool :=
  code.isComplete || code.share = 0 || (code.share = 0x4000 && (code.headD []).length = 1)

/-- The symbol that comes next. `offset` says how many codes as long as the bits read so far lie
between the first one that stands for no symbol and these bits. -/
def Code.symbolFrom : Code → Nat → Bits Nat
  | [], _ => failure
  | symbols :: longer, offset => do
    let b ← Bits.bit
    let offset := 2 * offset + b.toNat
    match symbols[offset]? with
    | some s => pure s
    | none => symbolFrom longer (offset - symbols.length)

def Code.symbol (code : Code) : Bits Nat := code.symbolFrom 0

def fixedLiterals : Code :=
  Code.ofLengths (List.replicate 144 8 ++ List.replicate 112 9 ++ List.replicate 24 7 ++
    List.replicate 8 8)

def fixedDistances : Code := Code.ofLengths (List.replicate 32 5)

/-! ### Blocks -/

/-- The least length and the number of further bits of each length symbol, from 257 on. -/
def lengthTable : List (Nat × Nat) :=
  [(3, 0), (4, 0), (5, 0), (6, 0), (7, 0), (8, 0), (9, 0), (10, 0), (11, 1), (13, 1),
    (15, 1), (17, 1), (19, 2), (23, 2), (27, 2), (31, 2), (35, 3), (43, 3), (51, 3), (59, 3),
    (67, 4), (83, 4), (99, 4), (115, 4), (131, 5), (163, 5), (195, 5), (227, 5), (258, 0)]

/-- The least distance and the number of further bits of each distance symbol. -/
def distanceTable : List (Nat × Nat) :=
  [(1, 0), (2, 0), (3, 0), (4, 0), (5, 1), (7, 1), (9, 2), (13, 2), (17, 3), (25, 3),
    (33, 4), (49, 4), (65, 5), (97, 5), (129, 6), (193, 6), (257, 7), (385, 7), (513, 8), (769, 8),
    (1025, 9), (1537, 9), (2049, 10), (3073, 10), (4097, 11), (6145, 11), (8193, 12), (12289, 12),
    (16385, 13), (24577, 13)]

/-- A number given by a symbol of a table and further bits. -/
def extended (table : List (Nat × Nat)) (symbol : Nat) : Bits Nat := do
  match table[symbol]? with
  | some (least, bits) => return least + (← Bits.number bits)
  | none => failure

/-- The byte `distance` back; before the first one there are zeros. -/
def byteBack (distance : Nat) (out : Array UInt8) : UInt8 :=
  if distance ≤ out.size then out.getD (out.size - distance) 0 else 0

/-- Repeats `length` bytes from `distance` back, one by one, so that the copy may overlap itself. -/
def copy (distance : Nat) : Nat → Array UInt8 → Array UInt8
  | 0, out => out
  | length + 1, out => copy distance length (out.push (byteBack distance out))

/-- The symbols of a block up to the one that ends it, 256; there are fewer of them than bits. -/
def compressed (literals distances : Code) : Nat → Array UInt8 → Bits (Array UInt8)
  | 0, _ => failure
  | n + 1, out => do
    let symbol ← literals.symbol
    if symbol < 256 then compressed literals distances n (out.push (UInt8.ofNat symbol))
    else if symbol = 256 then pure out
    else
      let length ← extended lengthTable (symbol - 257)
      let distance ← extended distanceTable (← distances.symbol)
      compressed literals distances n (copy distance length out)

/-- A stored block: its length, the length with every bit turned, and its bytes. -/
def stored (out : Array UInt8) : Bits (Array UInt8) := do
  Bits.align
  let length ← Bits.number 16
  let check ← Bits.number 16
  if length + check = 0xFFFF then
    let bytes ← Bits.times (Bits.number 8) length
    return out ++ (bytes.map UInt8.ofNat).toArray
  else failure

/-- The order in which the lengths of the code for code lengths come. -/
def lengthOrder : List Nat := [16, 17, 18, 0, 8, 7, 9, 6, 10, 5, 11, 4, 12, 3, 13, 2, 14, 1, 15]

/-- Code lengths up to `count` in all, the last one first. Symbols from 16 on repeat a length. -/
def codeLengths (code : Code) (count : Nat) : Nat → List Nat → Bits (List Nat)
  | 0, lengths => if lengths.length = count then pure lengths else failure
  | n + 1, lengths => do
    if count ≤ lengths.length then
      if lengths.length = count then pure lengths else failure
    else
      let symbol ← code.symbol
      if symbol < 16 then codeLengths code count n (symbol :: lengths)
      else if symbol = 16 then
        match lengths with
        | [] => failure
        | last :: _ =>
          let k ← Bits.number 2
          codeLengths code count n (List.replicate (k + 3) last ++ lengths)
      else
        let k ← if symbol = 17 then (· + 3) <$> Bits.number 3 else (· + 11) <$> Bits.number 7
        codeLengths code count n (List.replicate k 0 ++ lengths)

/-- The codes of a block that brings its own. -/
def ownCodes : Bits (Code × Code) := do
  let literals := (← Bits.number 5) + 257
  let distances := (← Bits.number 5) + 1
  let count := (← Bits.number 4) + 4
  if 286 < literals ∨ 30 < distances then failure
  let given := lengthOrder.zip (← Bits.times (Bits.number 3) count)
  let code := Code.ofLengths ((List.range 19).map fun i => (given.lookup i).getD 0)
  if !code.isComplete then failure
  let lengths := (← codeLengths code (literals + distances) (literals + distances) []).reverse
  let literalCode := Code.ofLengths (lengths.take literals)
  let distanceCode := Code.ofLengths (lengths.drop literals)
  if !literalCode.isUsable || !distanceCode.isUsable then failure
  return (literalCode, distanceCode)

/-- One block, and whether it is the last. -/
def block (out : Array UInt8) : Bits (Bool × Array UInt8) := do
  let last ← Bits.bit
  let kind ← Bits.number 2
  let bits := (← get).length
  match kind with
  | 0 => return (last, ← stored out)
  | 1 => return (last, ← compressed fixedLiterals fixedDistances bits out)
  | 2 =>
    let (literals, distances) ← ownCodes
    return (last, ← compressed literals distances bits out)
  | _ => failure

/-- Blocks up to the last; there are fewer of them than bits. -/
def blocks : Nat → Array UInt8 → Bits (Array UInt8)
  | 0, _ => failure
  | n + 1, out => do
    let (last, out) ← block out
    if last then pure out else blocks n out

/-- The data that was compressed, none if it is damaged. -/
def decompress? (bytes : List UInt8) : Option (List UInt8) :=
  let bits := bytes.flatMap bitsOf
  ((blocks bits.length #[]).run' bits).map Array.toList

/-! ### Writing -/

/-- The two bytes of a number, lower first. -/
def twoBytes (n : Nat) : List UInt8 := [UInt8.ofNat n, UInt8.ofNat (n / 256)]

/-- A stored block of fewer than `2 ^ 16` bytes. -/
def storedBlock (last : Bool) (bytes : List UInt8) : List UInt8 :=
  (if last then 1 else 0) :: twoBytes bytes.length ++ twoBytes (0xFFFF - bytes.length) ++ bytes

/-- Stored blocks of at most 65535 bytes, as few as can be, but one at least; `blocks` bounds how
many there are. -/
def storedBlocks : Nat → List UInt8 → List UInt8
  | 0, bytes => storedBlock true bytes
  | blocks + 1, bytes =>
    if bytes.length < 0x10000 then storedBlock true bytes
    else storedBlock false (bytes.take 65535) ++ storedBlocks blocks (bytes.drop 65535)

/-- Data in compressed form, though not smaller. -/
def compress (bytes : List UInt8) : List UInt8 := storedBlocks (bytes.length / 65535) bytes

end WireSchema.Deflate
