/-! UTF-8. Every sequence of bytes reads as text: each longest piece that starts a character without
ending one is read as the replacement character U+FFFD. -/

namespace WireSchema.Utf8

/-- The bytes of a text. -/
def encode (text : String) : List UInt8 := text.toList.flatMap String.utf8EncodeChar

/-- What a first byte of several announces: its own bits of the code point, the least and the
greatest byte that may come second, and how many bytes follow it. -/
structure Lead where
  bits : Nat
  low : Nat
  high : Nat
  tails : Nat

/-- The first bytes of characters of two to four bytes. The second byte is confined so that no code
point has two forms, none is a surrogate, and none exceeds U+10FFFF. -/
def lead (b : Nat) : Option Lead :=
  if b < 0xC2 then none
  else if b ≤ 0xDF then some ⟨b - 0xC0, 0x80, 0xBF, 1⟩
  else if b = 0xE0 then some ⟨0, 0xA0, 0xBF, 2⟩
  else if b = 0xED then some ⟨0xD, 0x80, 0x9F, 2⟩
  else if b ≤ 0xEF then some ⟨b - 0xE0, 0x80, 0xBF, 2⟩
  else if b = 0xF0 then some ⟨0, 0x90, 0xBF, 3⟩
  else if b ≤ 0xF3 then some ⟨b - 0xF0, 0x80, 0xBF, 3⟩
  else if b = 0xF4 then some ⟨4, 0x80, 0x8F, 3⟩
  else none

/-- The rest of a character, of which the bits read so far are `bits`: `tails` bytes, the first of
them from `low` to `high`. Answers the code point, none if a byte does not fit, and how many bytes
fitted. -/
def tail : Nat → Nat → Nat → Nat → List UInt8 → Option Nat × Nat
  | 0, bits, _, _, _ => (some bits, 0)
  | _ + 1, _, _, _, [] => (none, 0)
  | tails + 1, bits, low, high, b :: rest =>
    if low ≤ b.toNat ∧ b.toNat ≤ high then
      let (point, n) := tail tails (bits * 64 + b.toNat % 64) 0x80 0xBF rest
      (point, n + 1)
    else (none, 0)

/-- The first piece of a text: the code point it stands for, none if it stands for nothing, and how
many bytes it takes after its first. -/
def piece (b : UInt8) (rest : List UInt8) : Option Nat × Nat :=
  if b < 128 then (some b.toNat, 0)
  else
    match lead b.toNat with
    | none => (none, 0)
    | some l => tail l.tails l.bits l.low l.high rest

/-- U+FFFD, which stands for bytes that are no text. -/
def replacement : Char := Char.ofNat 0xFFFD

/-- The pieces of a byte sequence, none where one stands for nothing; `skip` bytes belong to the
piece before. -/
def piecesFrom : Nat → List UInt8 → List (Option Nat)
  | _, [] => []
  | skip + 1, _ :: rest => piecesFrom skip rest
  | 0, b :: rest =>
    let (point, n) := piece b rest
    point :: piecesFrom n rest

def pieces (bytes : List UInt8) : List (Option Nat) := piecesFrom 0 bytes

/-- The text of any bytes, with the replacement character where they are no text. -/
def decodeLossy (bytes : List UInt8) : String :=
  String.ofList ((pieces bytes).map fun point => (point.map Char.ofNat).getD replacement)

/-- The text of bytes that are text throughout. -/
def decode? (bytes : List UInt8) : Option String :=
  ((pieces bytes).mapM id).map fun points => String.ofList (points.map Char.ofNat)

end WireSchema.Utf8
