/-! Zstandard. Compressed data is a sequence of frames; a frame is a header and blocks up to one
marked as the last, or content to be skipped. Of blocks, those stored as they are and those that
repeat one byte are read; everything else counts as damage, and so do checksums and dictionaries.
Writing uses one frame of stored blocks. -/

namespace WireSchema.Zstandard

/-- A step of reading, from the bytes left to fewer. -/
abbrev Bytes (α : Type) := StateT (List UInt8) Option α

def take (n : Nat) : Bytes (List UInt8) := do
  let bytes ← get
  if n ≤ bytes.length then
    set (bytes.drop n)
    return bytes.take n
  else failure

def number (n : Nat) : Bytes Nat := do
  return (← take n).foldr (fun b m => b.toNat + 256 * m) 0

/-- The number that begins a frame. -/
def magic : Nat := 0xFD2FB528

/-- The numbers that begin content to be skipped differ in their last four bits. -/
def isSkippable (n : Nat) : Bool := n / 16 = 0x184D2A5

/-! ### Headers -/

/-- What the header of a frame says: the length of the content, if it is told, and the distance that
content may be referred to over. -/
structure Header where
  told : Option Nat
  window : Nat

/-- The window that a byte describes: a power of two from `2 ^ 10` to `2 ^ 31`, and eighths of
it. -/
def window (b : Nat) : Option Nat :=
  if b / 8 ≤ 21 then some (1 <<< (10 + b / 8) + (b % 8) <<< (7 + b / 8)) else none

/-- The field for the length of the content, the size of which two bits tell. -/
def lengthField (size : Nat) (single : Bool) : Bytes (Option Nat) := do
  match size, single with
  | 0, false => return none
  | 0, true => return some (← number 1)
  | 1, _ => return some ((← number 2) + 256)
  | 2, _ => return some (← number 4)
  | _, _ => return some (← number 8)

/-- The greatest number of eight bytes stands for a length that is not told. -/
def told (length : Option Nat) : Option Nat := length.filter (· ≠ UInt64.size - 1)

/-- The header of a frame behind its first number. A frame of a single segment has the length of its
content for a window. -/
def header : Bytes Header := do
  let d ← number 1
  let single : Bool := d / 32 % 2 = 1
  if d / 4 % 4 ≠ 0 then failure
  let described ← if single then pure none else some <$> number 1
  let dictionary ← number ([0, 1, 2, 4].getD (d % 4) 0)
  if dictionary ≠ 0 then failure
  let length ← lengthField (d / 64) single
  match described with
  | none => return ⟨told length, length.getD 0⟩
  | some b =>
    match window b with
    | some window => return ⟨told length, window⟩
    | none => failure

/-! ### Blocks -/

/-- A block: bytes as they are, or one byte so many times. -/
inductive Block
  | stored (bytes : List UInt8)
  | repeated (byte : UInt8) (length : Nat)

def Block.length : Block → Nat
  | stored bytes => bytes.length
  | repeated _ length => length

def Block.content : Block → List UInt8
  | stored bytes => bytes
  | repeated byte length => List.replicate length byte

/-- The length of the content of some blocks. -/
def totalLength (bs : List Block) : Nat := bs.foldl (fun n b => n + b.length) 0

/-- One block, and whether it is the last. -/
def block : Bytes (Bool × Block) := do
  let n ← number 3
  let last : Bool := n % 2 = 1
  match n / 2 % 4 with
  | 0 => return (last, .stored (← take (n / 8)))
  | 1 => return (last, .repeated (UInt8.ofNat (← number 1)) (n / 8))
  | _ => failure

/-- Blocks up to the last; there are fewer of them than bytes. -/
def blocks : Nat → Bytes (List Block)
  | 0 => failure
  | n + 1 => do
    let (last, first) ← block
    if last then return [first] else return first :: (← blocks n)

/-! ### Frames -/

/-- The longest content that is read in one go, if its length is told. -/
def wholeLength : Nat := 8192

/-- The greatest window of content that passes through a buffer. -/
def maxWindow : Nat := 0x8000001

/-- The longest block that passes through a buffer with a window. -/
def blockLimit (window : Nat) : Nat := min window 0x20000

/-- The size of a buffer that is filled anew time and again. -/
def ringSize (window : Nat) : Nat := window + 2 * blockLimit window + 64

/-- The sizes of two buffers, for a block on its way in and for content on its way out. -/
structure Buffers where
  input : Nat
  output : Nat

namespace Buffers

/-- Before the first frame there are none. -/
def none : Buffers := ⟨0, 0⟩

/-- The buffers that a frame needs: no more room for the content than its length. -/
def needed (h : Header) : Buffers :=
  ⟨blockLimit h.window, h.told.elim (ringSize h.window) (min (ringSize h.window))⟩

/-- The buffers for a frame, the ones that are there if both are large enough. -/
def adapt (b : Buffers) (h : Header) : Buffers :=
  let n := needed h
  if b.input < n.input ∨ b.output < n.output then n else b

end Buffers

/-- Whether the last of some blocks is stored and empty. -/
def endsEmpty (bs : List Block) : Bool :=
  match bs.getLast? with
  | some (.stored []) => true
  | _ => false

/-- Whether content of a length may come where another was told. An empty block at the end leaves
this to the room there is for content: with less than what was told it is filled anew and takes any
length. -/
def fits (told : Option Nat) (bs : List Block) (length room : Nat) : Bool :=
  match told with
  | none => true
  | some n => length = n || (endsEmpty bs && (room < n || length ≤ room))

/-- Whether content of this length is read in one go, so that only the length counts. -/
def isWhole (h : Header) : Bool := h.told.any (· ≤ wholeLength)

/-- Whether blocks make the content of a frame that passes through buffers, by way of a window that
must not be too great. -/
def passes (h : Header) (bs : List Block) (b : Buffers) : Bool :=
  h.window ≤ maxWindow && bs.all (·.length ≤ blockLimit h.window) &&
    fits h.told bs (totalLength bs) b.output

/-- The content of one frame, and the buffers behind it. -/
def frame (b : Buffers) : Bytes (Buffers × List UInt8) := do
  let first ← number 4
  if isSkippable first then
    let _ ← take (← number 4)
    return (b, [])
  else if first = magic then
    let h ← header
    let bs ← blocks (← get).length
    let after := if isWhole h then b else b.adapt h
    let sound : Bool := if isWhole h then h.told = some (totalLength bs) else passes h bs after
    if sound then return (after, bs.flatMap Block.content) else failure
  else failure

/-- The content of all frames; there are fewer of them than bytes. -/
def frames : Nat → Buffers → Bytes (List UInt8)
  | 0, _ => return []
  | n + 1, b => do
    if (← get).isEmpty then return []
    else
      let (after, content) ← frame b
      return content ++ (← frames n after)

/-- The data that was compressed, none if it is damaged. -/
def decompress? (bytes : List UInt8) : Option (List UInt8) := (frames bytes.length .none).run' bytes

/-! ### Writing -/

/-- The lowest `n` bytes of a number, lowest first. -/
def bytesOf : Nat → Nat → List UInt8
  | 0, _ => []
  | n + 1, m => UInt8.ofNat m :: bytesOf n (m / 256)

def storedBlock (last : Bool) (bytes : List UInt8) : List UInt8 :=
  bytesOf 3 (bytes.length * 8 + if last then 1 else 0) ++ bytes

/-- The longest block that is written. -/
def maxBlock : Nat := 0x20000

/-- Stored blocks of at most the greatest length, as few as can be, but one at least; `blocks`
bounds how many there are. -/
def storedBlocks : Nat → List UInt8 → List UInt8
  | 0, bytes => storedBlock true bytes
  | blocks + 1, bytes =>
    if bytes.length ≤ maxBlock then storedBlock true bytes
    else storedBlock false (bytes.take maxBlock) ++ storedBlocks blocks (bytes.drop maxBlock)

/-- Data in compressed form, though not smaller: a frame with a window of the greatest block and no
content length. -/
def compress (bytes : List UInt8) : List UInt8 :=
  bytesOf 4 magic ++ [0, 56] ++ storedBlocks (bytes.length / maxBlock) bytes

end WireSchema.Zstandard
