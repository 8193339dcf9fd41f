import WireSchema.Json.Numeral

/-! JSON documents from text. A text that is no document either ends too early or goes wrong before
its end. Arrays and objects may nest 127 deep, and of repeated names the last value stays, at the
first one's place. -/

namespace WireSchema.Json

/-- Why a text is no document. -/
inductive ParseFault
  /-- The text ends where more is needed. -/
  | ended
  /-- The text goes wrong before it ends. -/
  | malformed
  deriving DecidableEq

/-- A step of reading, from the characters left to fewer. -/
abbrev Parser (α : Type) := StateT (List Char) (Except ParseFault) α

namespace Parser

/-- The deepest nesting of arrays and objects. -/
def maxDepth : Nat := 127

def isBlank (c : Char) : Bool := c == ' ' || c == '\n' || c == '\t' || c == '\r'

def skipBlanks : Parser Unit := modify (·.dropWhile isBlank)

def peek : Parser (Option Char) := return (← get).head?

def next : Parser Char := do
  match ← get with
  | [] => throw .ended
  | c :: rest => do set rest; pure c

/-- Passes the given characters. -/
def word : List Char → Parser Unit
  | [] => pure ()
  | c :: rest => do if (← next) = c then word rest else throw .malformed

def isDigit (c : Char) : Bool := '0' ≤ c && c ≤ '9'

/-- The digits that come next. -/
def digits : Parser (List Nat) := do
  let cs ← get
  set (cs.dropWhile isDigit)
  return (cs.takeWhile isDigit).map (·.toNat - 48)

/-- At least one digit. -/
def digits1 : Parser (List Nat) := do
  let ds ← digits
  if ds.isEmpty then
    match ← peek with
    | none => throw .ended
    | some _ => throw .malformed
  else return ds

/-- Passes a character if it comes next. -/
def accept (p : Char → Bool) : Parser Bool := do
  match ← get with
  | c :: rest => if p c then do set rest; pure true else pure false
  | [] => pure false

/-- The digits before the point: a zero stands alone. -/
def units : Parser (List Nat) := do
  if ← accept (· == '0') then
    if (← peek).any isDigit then throw .malformed
    return [0]
  else digits1

def fraction : Parser (Option (List Nat)) := do
  if ← accept (· == '.') then return some (← digits1) else return none

def exponent : Parser (Option (Bool × List Nat)) := do
  if ← accept (fun c => c == 'e' || c == 'E') then
    let down ← accept (· == '-')
    if !down then
      let _ ← accept (· == '+')
    return some (down, ← digits1)
  else return none

/-- A number behind its sign. -/
def number (negative : Bool) : Parser Number := do
  let m : Numeral := ⟨negative, ← units, ← fraction, ← exponent⟩
  match m.value? with
  | some n => return n
  | none => throw .malformed

def hexValue? (c : Char) : Option Nat :=
  if '0' ≤ c ∧ c ≤ '9' then some (c.toNat - 48)
  else if 'a' ≤ c ∧ c ≤ 'f' then some (c.toNat - 87)
  else if 'A' ≤ c ∧ c ≤ 'F' then some (c.toNat - 55)
  else none

/-- Four hexadecimal digits; the text counts as ended if fewer than four bytes are left. -/
def hex4 : Parser Nat := do
  let cs ← get
  if (cs.take 4).foldl (fun n c => n + c.utf8Size) 0 < 4 then throw .ended
  match (cs.take 4).mapM hexValue? with
  | some ds => do
    set (cs.drop 4)
    return ds.foldl (fun n d => n * 16 + d) 0
  | none => throw .malformed

/-- The character of an escaped code unit. The first half of a pair has to be followed by the second
half, which cannot stand alone. -/
def codeUnit : Parser Char := do
  let n ← hex4
  if 0xDC00 ≤ n ∧ n ≤ 0xDFFF then throw .malformed
  else if 0xD800 ≤ n ∧ n ≤ 0xDBFF then
    word ['\\', 'u']
    let low ← hex4
    if 0xDC00 ≤ low ∧ low ≤ 0xDFFF then
      return Char.ofNat (0x10000 + (n - 0xD800) * 0x400 + (low - 0xDC00))
    else throw .malformed
  else return Char.ofNat n

/-- What a backslash and the next characters stand for. -/
def escape : Parser Char := do
  match ← next with
  | '"' => return '"'
  | '\\' => return '\\'
  | '/' => return '/'
  | 'b' => return Char.ofNat 0x08
  | 'f' => return Char.ofNat 0x0C
  | 'n' => return '\n'
  | 'r' => return '\r'
  | 't' => return '\t'
  | 'u' => codeUnit
  | _ => throw .malformed

/-- The characters up to the closing quote; there are fewer of them than characters left. -/
def characters : Nat → Parser (List Char)
  | 0 => throw .ended
  | n + 1 => do
    let c ← next
    if c = '"' then return []
    else if c = '\\' then return (← escape) :: (← characters n)
    else if c.toNat < 0x20 then throw .malformed
    else return c :: (← characters n)

/-- A string behind its opening quote. -/
def string : Parser String := do return String.ofList (← characters (← get).length)

/-- The items behind the first one, up to the closing bracket; each takes a comma at least. -/
def moreItems (inner : Parser Json) : Nat → Parser (List Json)
  | 0 => throw .ended
  | n + 1 => do
    skipBlanks
    match ← next with
    | ']' => return []
    | ',' =>
      skipBlanks
      if (← peek) = some ']' then throw .malformed
      return (← inner) :: (← moreItems inner n)
    | _ => throw .malformed

/-- The items of an array behind its opening bracket. -/
def items (inner : Parser Json) : Parser (List Json) := do
  skipBlanks
  if ← accept (· == ']') then return []
  else return (← inner) :: (← moreItems inner (← get).length)

/-- A member: its name, a colon and its value. -/
def member (inner : Parser Json) : Parser (String × Json) := do
  if (← next) ≠ '"' then throw .malformed
  let name ← string
  skipBlanks
  if (← next) ≠ ':' then throw .malformed
  return (name, ← inner)

/-- The members behind those read so far, up to the closing brace; each takes a comma at least. -/
def moreMembers (inner : Parser Json) : Nat → List (String × Json) → Parser (List (String × Json))
  | 0, _ => throw .ended
  | n + 1, members => do
    skipBlanks
    match ← next with
    | '\x7d' => return members
    | ',' =>
      skipBlanks
      let (name, value) ← member inner
      moreMembers inner n (setMember name value members)
    | _ => throw .malformed

/-- The members of an object behind its opening brace. -/
def members (inner : Parser Json) : Parser (List (String × Json)) := do
  skipBlanks
  if ← accept (· == '\x7d') then return []
  else
    let first ← member inner
    moreMembers inner (← get).length [first]

/-- A document; `inner` reads what lies one level deeper, and is missing at the deepest level. -/
def documentWith (inner : Option (Parser Json)) : Parser Json := do
  skipBlanks
  match ← next with
  | 'n' => do word "ull".toList; return null
  | 't' => do word "rue".toList; return bool true
  | 'f' => do word "alse".toList; return bool false
  | '"' => return Json.string (← string)
  | '-' => return Json.number (← number true)
  | '[' =>
    match inner with
    | some inner => return array (← items inner)
    | none => throw .malformed
  | '\x7b' =>
    match inner with
    | some inner => return object (← members inner)
    | none => throw .malformed
  | c =>
    if isDigit c then do
      modify (c :: ·)
      return Json.number (← number false)
    else throw .malformed

/-- A document that nests at most `levels` deep. -/
def documentWithin : Nat → Parser Json
  | 0 => documentWith none
  | levels + 1 => documentWith (some (documentWithin levels))

/-- A document and nothing after it. -/
def document : Parser Json := do
  let j ← documentWithin maxDepth
  skipBlanks
  if (← get).isEmpty then return j else throw .malformed

end Parser

def parse (text : String) : Except ParseFault Json := Parser.document.run' text.toList

end WireSchema.Json
