import WireSchema.Text.Blank
import WireSchema.Text.Quoted
import WireSchema.Text.Utf8

/-! Bytes as hexadecimal text: two digits a byte, written in upper case with a blank between bytes,
and read in either case with white space anywhere. `pair` and `ofDigits` stand for the codec of an
outside library, written out as that library documents it: a byte has two digits in upper case, and
an even number of digits of either case are read two by two, while anything else is refused. -/

namespace WireSchema.Hex

/-- Why a text stands for no bytes. -/
inductive Error
  /-- One digit has no partner. -/
  | oddLength
  /-- The byte of the text at a place, white space not counted, is no digit. -/
  | noDigit (byte : UInt8) (place : Nat)
  deriving DecidableEq

/-- The character with the code of a byte. -/
def charOfByte (b : UInt8) : Char := Char.ofNat b.toNat

def Error.message : Error → String
  | oddLength => "Odd number of digits"
  | noDigit b place => s!"Invalid character {Text.quoteChar (charOfByte b)} at position {place}"

/-- A digit, upper case. -/
def digit (n : Nat) : Char := (Nat.digitChar n).toUpper

/-- The two digits of a byte, as the library writes them. -/
def pair (b : UInt8) : String := String.ofList [digit (b.toNat / 16), digit (b.toNat % 16)]

def print (bytes : List UInt8) : String := " ".intercalate (bytes.map pair)

/-- The value of a byte as a digit. -/
def value? (b : UInt8) : Option Nat :=
  let n := b.toNat
  if 48 ≤ n ∧ n ≤ 57 then some (n - 48)
  else if 65 ≤ n ∧ n ≤ 70 then some (n - 55)
  else if 97 ≤ n ∧ n ≤ 102 then some (n - 87)
  else none

/-- The bytes of pairs of digits, of which the first one is at a place, as the library reads
them. -/
def ofDigits : Nat → List UInt8 → Except Error (List UInt8)
  | place, high :: low :: rest =>
    match value? high, value? low with
    | some h, some l => (ofDigits (place + 2) rest).map (UInt8.ofNat (h * 16 + l) :: ·)
    | none, _ => .error (.noDigit high place)
    | some _, none => .error (.noDigit low (place + 1))
  | _, [_] => .error .oddLength
  | _, [] => .ok []

/-- The bytes of a text; whether digits are missing is looked at before what the digits are. -/
def parse (text : String) : Except Error (List UInt8) :=
  let digits := Utf8.encode (String.ofList (text.toList.filter (!Text.isBlank ·)))
  if digits.length % 2 = 1 then .error .oddLength else ofDigits 0 digits

end WireSchema.Hex
