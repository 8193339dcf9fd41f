import WireSchema.Archive.Basic
import WireSchema.Hex
import WireSchema.Json.Parser
import WireSchema.Schema.Binary
import WireSchema.Schema.Token
import WireSchema.Schema.Validity
import WireSchema.Value.Encode
import WireSchema.Value.Json

/-! Everything that can go wrong, in one type, with the two forms in which it is shown: a message in
plain words, and a description that names the failure and its parts. -/

namespace WireSchema

/-- Why an operation failed. -/
inductive Failure
  /-- A file cannot be read or written, or compressed data is damaged. -/
  | io
  | parse (e : ParseError)
  | invalid (e : Schema.ValidityError)
  | binary (e : Schema.BinaryError)
  | encode (e : EncodeError)
  | decode (e : DecodeError)
  | json (e : JsonError)
  /-- No document was given. -/
  | noDocument
  /-- A text is no JSON document. -/
  | document (fault : Json.ParseFault)
  | hex (e : Hex.Error)
  | archive (e : Archive.Error)

namespace Failure

/-- The failure of reading an archive; damaged content counts as a failure of the input. -/
def ofArchive : Archive.Error → Failure
  | .damaged => io
  | e => archive e

/-- The failure of reading or writing a binary schema; missing bytes count as a failure of
decoding. -/
def ofBinary : Schema.BinaryError → Failure
  | .buffer e => decode (.buffer e)
  | e => binary e

/-- What to do about a missing document. -/
def noDocumentText : String := "Pass --json or --input"

/-- A failure in plain words. -/
def message : Failure → String
  | io => "I/O error"
  | parse e =>
    s!"Parse error at line {e.position.line}, column {e.position.column}: {e.fault.message}"
  | invalid e => s!"Validation error: {e.message}"
  | binary e => s!"Binary schema error: {e.message}"
  | encode e => s!"Encode error: {e.message}"
  | decode e => s!"Decode error: {e.message}"
  | json e => s!"JSON error: {e.message}"
  | noDocument => s!"JSON error: {noDocumentText}"
  | document _ => "JSON syntax error"
  | hex e => e.message
  | archive e => s!"Archive error: {e.message}"

/-! ### Descriptions -/

/-- Something of a name with named parts. -/
def record (name : String) (parts : List (String × String)) : String :=
  s!"{name} \x7b " ++ ", ".intercalate (parts.map fun (part, text) => s!"{part}: {text}") ++ " \x7d"

/-- Something of a name with one part. -/
def wrapped (name part : String) : String := s!"{name}({part})"

open Text

def describeBuffer : BufferError → String
  | .underflow offset needed =>
    record "Underflow" [("offset", toString offset), ("needed", toString needed)]
  | .invalidBool offset byte =>
    record "InvalidBool" [("offset", toString offset), ("byte", toString byte.toNat)]

def describeEncode : EncodeError → String
  | .unknownType name => wrapped "UnknownType" (quoteVisible name)
  | .missingField definition field =>
    record "MissingField" [("def", quoteVisible definition), ("field", quoteVisible field)]
  | .unknownField definition field =>
    record "UnknownField" [("def", quoteVisible definition), ("field", quoteVisible field)]
  | .mismatch expected found =>
    record "TypeMismatch" [("expected", quoteVisible expected), ("found", quoteVisible found)]
  | .unknownEntry type name =>
    record "UnknownEnumName" [("def", quoteVisible type), ("name", quoteVisible name)]
  | .zeroInString text => wrapped "NulInString" (quoteVisible text)

def describeDecode : DecodeError → String
  | .buffer e => wrapped "Buffer" (describeBuffer e)
  | .unknownType name => wrapped "UnknownType" (quoteVisible name)
  | .unknownEntry type value =>
    record "UnknownEnumValue" [("def", quoteVisible type), ("value", toString value.toNat)]
  | .trailing bytes => wrapped "TrailingBytes" (toString bytes)
  | .tooDeep => wrapped "TooDeep" (toString maxDepth)
  | .arrayTooLong length =>
    record "ArrayTooLong" [("len", toString length), ("max", toString maxZeroWidthLength)]

def describeHex : Hex.Error → String
  | .oddLength => "OddLength"
  | .noDigit byte place =>
    record "InvalidHexCharacter"
      [("c", quoteChar (Hex.charOfByte byte)), ("index", toString place)]

/-- A failure by its name and its parts. -/
def describe : Failure → String
  | io => "Io"
  | parse e =>
    record "ParseError" [("msg", quoteVisible e.fault.message),
      ("line", toString e.position.line), ("column", toString e.position.column)]
  | invalid e => wrapped "ValidationError" (quoteVisible e.message)
  | binary e => wrapped "BinarySchema" (quoteVisible e.message)
  | encode e => wrapped "Encode" (describeEncode e)
  | decode e => wrapped "Decode" (describeDecode e)
  | json e => wrapped "Json" (quoteVisible e.message)
  | noDocument => wrapped "Json" (quoteVisible noDocumentText)
  | document _ => "Serde"
  | hex e => wrapped "Hex" (describeHex e)
  | archive e => wrapped "Archive" (quoteVisible e.message)

end Failure

end WireSchema
