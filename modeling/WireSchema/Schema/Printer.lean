import WireSchema.Schema.Basic

/-! The canonical text of a schema: the package line if there is one, the definitions, a blank line
between them, and each field on a line of its own behind two spaces. -/

namespace WireSchema.Schema

/-- The type of a field with the mark of an array; nothing where there is no type. -/
def Field.typeText (f : Field) : String := f.typeName.getD "" ++ if f.isArray then "[]" else ""

/-- The line of a field in a definition of a kind. -/
def Field.line (f : Field) : Kind → String
  | .enum => s!"  {f.name} = {f.value.toInt};\n"
  | .struct => s!"  {f.typeText} {f.name};\n"
  | .message =>
    let deprecated := if f.isDeprecated then " [deprecated]" else ""
    s!"  {f.typeText} {f.name} = {f.value.toInt}{deprecated};\n"

def Definition.print (d : Definition) : String :=
  s!"{d.kind.keyword} {d.name} \x7b\n" ++ String.join (d.fields.map (·.line d.kind)) ++ "\x7d\n"

/-- The canonical text. -/
def print (s : Schema) : String :=
  let package := s.package.toList.map fun name => s!"package {name};\n"
  "\n".intercalate (package ++ s.definitions.map Definition.print)

end WireSchema.Schema
