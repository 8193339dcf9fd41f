import WireSchema.Json.Printer
import WireSchema.Schema.Basic

/-! Schemas as JSON documents, with every part named. -/

namespace WireSchema.Schema

def kindName : Kind → String
  | .enum => "Enum"
  | .struct => "Struct"
  | .message => "Message"

def optional (text : Option String) : Json := (text.map Json.string).getD .null

def Field.toJson (f : Field) : Json :=
  .object [("name", .string f.name), ("line", .ofNat f.position.line),
    ("column", .ofNat f.position.column), ("type", optional f.typeName),
    ("is_array", .bool f.isArray), ("is_deprecated", .bool f.isDeprecated),
    ("value", .int f.value.toInt)]

def Definition.toJson (d : Definition) : Json :=
  .object [("name", .string d.name), ("line", .ofNat d.position.line),
    ("column", .ofNat d.position.column), ("kind", .string (kindName d.kind)),
    ("fields", .array (d.fields.map Field.toJson))]

def toJson (s : Schema) : Json :=
  .object [("package", optional s.package),
    ("definitions", .array (s.definitions.map Definition.toJson))]

end WireSchema.Schema
