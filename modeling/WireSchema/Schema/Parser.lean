import WireSchema.Schema.Token

/-! Schemas from tokens: a package line or none, then definitions. A definition is its kind, its
name and its fields in braces; an enum entry is `NAME = INT;`, a struct field `TYPE NAME;` or
`TYPE[] NAME;`, and a message field the same with ` = INT` and perhaps `[deprecated]` before the
semicolon. Words that open something may be used as names as well. -/

namespace WireSchema

namespace Token

def isName (text : String) : Bool :=
  match text.toList with
  | [] => false
  | c :: rest => isNameStart c && rest.all isNameRest

/-- Whether a text is an integer, of digits of any script. -/
def isInteger (text : String) : Bool :=
  match text.toList with
  | '-' :: digits => !digits.isEmpty && digits.all Text.isDigit
  | digits => !digits.isEmpty && digits.all Text.isDigit

/-- The number of some digits 0 to 9. -/
def decimal? (digits : List Char) : Option Nat :=
  digits.foldlM (fun n c => if '0' ≤ c && c ≤ '9' then some (n * 10 + (c.toNat - 48)) else none) 0

/-- The value of an integer that fits 32 bits. -/
def int32? (text : String) : Option Int32 := do
  let value ← match text.toList with
    | '-' :: digits => (decimal? digits).map fun n => -(n : Int)
    | digits => (decimal? digits).map fun n => (n : Int)
  if -0x80000000 ≤ value ∧ value < 0x80000000 then some (Int32.ofInt value) else none

/-- Whether a text is what is expected. -/
def satisfies (text : String) : Expected → Bool
  | .identifier => isName text
  | .integer => isInteger text
  | .equals => text == "="
  | .semicolon => text == ";"
  | .openBrace => text == "\x7b"
  | .closeBracket => text == "]"
  | .deprecated => text == "deprecated"

end Token

/-- A step of parsing, from the tokens left to fewer. -/
abbrev Parser (α : Type) := StateT (List Token) (Except ParseError) α

namespace Parser

open Schema

variable (stop : Position)

/-- The text and the place of the next token; at the end, nothing and the place of the end. -/
def current : Parser Token := return ((← get).head?).getD ⟨"", stop⟩

def fail {α : Type} (fault : ParseFault) (position : Position) : Parser α :=
  throw ⟨fault, position⟩

/-- Passes the next token if it is `text`. -/
def eat (text : String) : Parser Bool := do
  match ← get with
  | t :: rest => if t.text == text then do set rest; pure true else pure false
  | [] => pure false

/-- Passes the next token, which has to be as expected. -/
def expect (what : Expected) : Parser Token := do
  match ← get with
  | t :: rest =>
    if Token.satisfies t.text what then do set rest; pure t
    else fail (.expected what t.text) t.position
  | [] => fail (.expected what "") stop

def integer : Parser Int32 := do
  let t ← expect stop .integer
  match Token.int32? t.text with
  | some n => pure n
  | none => fail (.badInteger t.text) t.position

/-- The further parts of a dotted name; there are fewer of them than tokens. -/
def dotted : Nat → Parser (List String)
  | 0 => pure []
  | n + 1 => do
    if ← eat "." then
      let part ← expect stop .identifier
      return part.text :: (← dotted n)
    else pure []

def package : Parser (Option String) := do
  if ← eat "package" then
    let first ← expect stop .identifier
    let rest ← dotted stop (← get).length
    let _ ← expect stop .semicolon
    return some (".".intercalate (first.text :: rest))
  else pure none

def enumEntry : Parser Field := do
  let name ← expect stop .identifier
  let _ ← expect stop .equals
  let value ← integer stop
  let next ← current stop
  if next.text == "[" then fail .notDeprecatable next.position
  let _ ← expect stop .semicolon
  return ⟨name.text, name.position, none, false, false, value⟩

def fieldType : Parser (String × Bool) := do
  let type ← expect stop .identifier
  if ← eat "[" then
    let _ ← expect stop .closeBracket
    return (type.text, true)
  else return (type.text, false)

/-- A struct field, numbered by its place. -/
def structField (place : Nat) : Parser Field := do
  let (type, isArray) ← fieldType stop
  let name ← expect stop .identifier
  let next ← current stop
  if next.text == "=" then fail (.structId name.text) next.position
  if next.text == "[" then fail .notDeprecatable next.position
  let _ ← expect stop .semicolon
  return ⟨name.text, name.position, some type, isArray, false, Int32.ofInt (place + 1)⟩

def messageField : Parser Field := do
  let (type, isArray) ← fieldType stop
  let name ← expect stop .identifier
  let next ← current stop
  if next.text != "=" then fail (.noId name.text) next.position
  let _ ← expect stop .equals
  let value ← integer stop
  let isDeprecated ← eat "["
  if isDeprecated then
    let _ ← expect stop .deprecated
    let _ ← expect stop .closeBracket
  let _ ← expect stop .semicolon
  return ⟨name.text, name.position, some type, isArray, isDeprecated, value⟩

def field : Kind → Nat → Parser Field
  | .enum, _ => enumEntry stop
  | .struct, place => structField stop place
  | .message, _ => messageField stop

/-- The fields from a place on, up to the brace that closes them; there are fewer of them than
tokens. -/
def fields (kind : Kind) (name : String) : Nat → Nat → Parser (List Field)
  | 0, _ => fail (.openDefinition kind name) stop
  | n + 1, place => do
    if ← eat "\x7d" then pure []
    else if (← get).isEmpty then fail (.openDefinition kind name) stop
    else
      let first ← field stop kind place
      return first :: (← fields kind name n (place + 1))

def kind : Parser Kind := do
  if ← eat "enum" then pure .enum
  else if ← eat "struct" then pure .struct
  else if ← eat "message" then pure .message
  else
    let t ← current stop
    fail (.noDefinition t.text) t.position

def definition : Parser Definition := do
  let kind ← kind stop
  let name ← expect stop .identifier
  let _ ← expect stop .openBrace
  let fields ← fields stop kind name.text (← get).length 0
  return ⟨name.text, name.position, kind, fields⟩

/-- The definitions up to the end; there are no more of them than tokens. -/
def definitions : Nat → Parser (List Definition)
  | 0 => pure []
  | n + 1 => do
    if (← get).isEmpty then pure []
    else
      let first ← definition stop
      return first :: (← definitions n)

def schema : Parser Schema := do
  let package ← package stop
  let definitions ← definitions stop (← get).length
  return ⟨package, definitions⟩

end Parser

namespace Schema

/-- The schema of a token list. The list has to end with the end of the text; the first such token
ends the schema. -/
def ofTokens (tokens : List Token) : Except ParseError Schema :=
  match tokens.getLast?, tokens.find? Token.isEnd with
  | some last, some stop =>
    if last.isEnd then (Parser.schema stop.position).run' (tokens.takeWhile (!Token.isEnd ·))
    else .error ⟨.noEnd, .none⟩
  | _, _ => .error ⟨.noEnd, .none⟩

def parse (text : String) : Except ParseError Schema := do ofTokens (← Token.scan text)

end Schema

end WireSchema
