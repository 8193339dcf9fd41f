import WireSchema.Text.Visible

/-! Quoted text, in the two forms that are written: JSON strings, which escape what JSON must and
leave the rest raw, and strings for the reader's eye, in which every character that does not show
itself is given by its code point. -/

namespace WireSchema.Text

/-- A hexadecimal digit, lower case. -/
def hexDigit (n : Nat) : Char := (Nat.digitChar n)

/-- A character inside a JSON string. -/
def jsonEscape (c : Char) : List Char :=
  if c = '"' then ['\\', '"']
  else if c = '\\' then ['\\', '\\']
  else if c.toNat = 0x08 then ['\\', 'b']
  else if c.toNat = 0x09 then ['\\', 't']
  else if c.toNat = 0x0A then ['\\', 'n']
  else if c.toNat = 0x0C then ['\\', 'f']
  else if c.toNat = 0x0D then ['\\', 'r']
  else if c.toNat < 0x20 then
    ['\\', 'u', '0', '0', hexDigit (c.toNat / 16), hexDigit (c.toNat % 16)]
  else [c]

def quoteJson (text : String) : String :=
  String.ofList ('"' :: text.toList.flatMap jsonEscape ++ ['"'])

/-- A character given by its code point. -/
def codePoint (c : Char) : List Char :=
  ['\\', 'u', '\x7b'] ++ Nat.toDigits 16 c.toNat ++ ['\x7d']

/-- A character inside quotes `delimiter`, escaped where it does not show itself. -/
def visibleEscape (delimiter c : Char) : List Char :=
  if c.toNat = 0 then ['\\', '0']
  else if c = '\t' then ['\\', 't']
  else if c = '\r' then ['\\', 'r']
  else if c = '\n' then ['\\', 'n']
  else if c = '\\' then ['\\', '\\']
  else if c = delimiter then ['\\', delimiter]
  else if isVisible c then [c]
  else codePoint c

def quoteVisible (text : String) : String :=
  String.ofList ('"' :: text.toList.flatMap (visibleEscape '"') ++ ['"'])

def quoteChar (c : Char) : String :=
  String.ofList ('\'' :: visibleEscape '\'' c ++ ['\''])

end WireSchema.Text
