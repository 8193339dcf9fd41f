import WireSchema.Schema.Basic
import WireSchema.Text.Blank
import WireSchema.Text.Digit
import WireSchema.Text.Quoted
import WireSchema.Text.Word

/-! Schema text as tokens. A token is an integer, a mark or a name; between tokens there may be
white space, comments from `//` to the end of the line, and comments from `/*` to the next `*/`. An
integer or a name goes on for as long as it can, and has to end where a word ends. -/

namespace WireSchema

/-- A token and the place of its first character. The empty token stands for the end of the text. -/
structure Token where
  text : String
  position : Position
  deriving DecidableEq

/-- What a token can be expected to be. -/
inductive Expected
  | identifier
  | integer
  | equals
  | semicolon
  | openBrace
  | closeBracket
  | deprecated
  deriving DecidableEq

def Expected.text : Expected → String
  | identifier => "identifier"
  | integer => "integer"
  | equals => "\"=\""
  | semicolon => "\";\""
  | openBrace => "\"\x7b\""
  | closeBracket => "\"]\""
  | deprecated => "\"deprecated\""

/-- Why a text is no schema. -/
inductive ParseFault
  /-- A comment is never closed. -/
  | openComment
  /-- No token begins with these characters. -/
  | noToken (text : String)
  /-- The token list does not end with the end of the text. -/
  | noEnd
  /-- Something else was expected than the token found, which is empty at the end of the text. -/
  | expected (what : Expected) (found : String)
  /-- No definition begins with this token. -/
  | noDefinition (found : String)
  /-- The integer does not fit 32 bits, or has digits other than 0 to 9. -/
  | badInteger (text : String)
  /-- The text ends inside a definition. -/
  | openDefinition (kind : Kind) (name : String)
  /-- Only message fields can be deprecated. -/
  | notDeprecatable
  | noId (field : String)
  | structId (field : String)
  deriving DecidableEq

open Text in
def ParseFault.message : ParseFault → String
  | openComment => "Unterminated block comment"
  | noToken text => s!"Syntax error: {quoteJson text}"
  | noEnd => "Missing end of file token"
  | expected what found =>
    let there := if found.isEmpty then "end of file" else quoteJson found
    s!"Expected {what.text} but found {there}"
  | noDefinition found => s!"Unexpected token {quoteJson found}"
  | badInteger text => s!"Invalid integer {quoteJson text}"
  | openDefinition kind name =>
    s!"Unterminated {kind.keyword} {quoteJson name}: expected \"\x7d\""
  | notDeprecatable => "Cannot deprecate this field"
  | noId field => s!"Missing id for message field {quoteJson field}"
  | structId field => s!"Struct field {quoteJson field} cannot have an id"

/-- A fault and the place where it shows. -/
structure ParseError where
  fault : ParseFault
  position : Position
  deriving DecidableEq

namespace Token

open Text

def isEnd (t : Token) : Bool := t.text.isEmpty

def isNameStart (c : Char) : Bool :=
  ('A' ≤ c && c ≤ 'Z') || ('a' ≤ c && c ≤ 'z') || c == '_'

def isNameRest (c : Char) : Bool := isNameStart c || ('0' ≤ c && c ≤ '9')

def isMark (c : Char) : Bool := ['=', ';', '\x7b', '\x7d', '.', '[', ']'].contains c

/-- Whether a word ends before the given characters. -/
def endsBefore : List Char → Bool
  | [] => true
  | c :: _ => !isWordChar c

/-- How many characters there are up to the first `*/` and with it. -/
def commentLength? : List Char → Option Nat
  | '*' :: '/' :: _ => some 2
  | _ :: rest => (commentLength? rest).map (· + 1)
  | [] => none

/-- How many of the characters belong, as far as they satisfy `p`, if a word ends after them. -/
def wordLength? (p : Char → Bool) (cs : List Char) : Option Nat :=
  if endsBefore (cs.dropWhile p) then some (cs.takeWhile p).length else none

/-- What begins with a character: whether it is a token, and how many characters follow the
first. -/
def lexeme? (c : Char) (rest : List Char) : Option (Bool × Nat) :=
  if c = '-' then
    if (rest.takeWhile isDigit).isEmpty then none
    else (wordLength? isDigit rest).map (true, ·)
  else if isDigit c then (wordLength? isDigit rest).map (true, ·)
  else if isMark c then some (true, 0)
  else if isNameStart c then (wordLength? isNameRest rest).map (true, ·)
  else if isBlank c then some (false, (rest.takeWhile isBlank).length)
  else if c = '/' then
    match rest with
    | '/' :: line => some (false, (line.takeWhile (· ≠ '\n')).length + 1)
    | '*' :: body => (commentLength? body).map fun n => (false, n + 1)
    | _ => none
  else none

/-- Why nothing begins with these characters. -/
def faultAt : List Char → ParseFault
  | '/' :: '*' :: _ => .openComment
  | cs => .noToken (String.ofList (cs.takeWhile (!isBlank ·)))

/-- The tokens of a text from a place on, where `skip` characters still belong to what came
before. -/
def scanFrom : Nat → Position → List Char → Except ParseError (List Token)
  | _, p, [] => .ok [⟨"", p⟩]
  | skip + 1, p, c :: rest => scanFrom skip (p.next c) rest
  | 0, p, c :: rest =>
    match lexeme? c rest with
    | none => .error ⟨faultAt (c :: rest), p⟩
    | some (true, n) =>
      (scanFrom n (p.next c) rest).map (⟨String.ofList (c :: rest.take n), p⟩ :: ·)
    | some (false, n) => scanFrom n (p.next c) rest

/-- The tokens of a text, the end last. -/
def scan (text : String) : Except ParseError (List Token) := scanFrom 0 .first text.toList

end Token

end WireSchema
