/-! Schemas as they are written: definitions of enums, structs and messages in order, each with its
fields in order, types given by name, and the place in the text where each name stands. -/

namespace WireSchema

/-- A place in a text: a line, and a column counted in bytes, both from 1. Line 0 is no place. -/
structure Position where
  line : Nat
  column : Nat
  deriving DecidableEq

namespace Position

/-- No place, for what comes from no text. -/
def none : Position := ⟨0, 0⟩

def first : Position := ⟨1, 1⟩

/-- The place after a character. -/
def next (p : Position) (c : Char) : Position :=
  if c = '\n' then ⟨p.line + 1, 1⟩ else ⟨p.line, p.column + c.utf8Size⟩

/-- A place as the end of a message, empty for no place. -/
def suffix (p : Position) : String :=
  if p.line = 0 then "" else s!" at line {p.line}, column {p.column}"

end Position

inductive Kind
  | enum
  | struct
  | message
  deriving DecidableEq

/-- The word that opens a definition. -/
def Kind.keyword : Kind → String
  | enum => "enum"
  | struct => "struct"
  | message => "message"

namespace Schema

/-- A field of a struct or message, or an entry of an enum. An entry has no type. The value is the
value of an entry, the id of a message field, or the place of a struct field counted from 1. -/
structure Field where
  name : String
  position : Position
  typeName : Option String
  isArray : Bool
  isDeprecated : Bool
  value : Int32
  deriving DecidableEq

structure Definition where
  name : String
  position : Position
  kind : Kind
  fields : List Field
  deriving DecidableEq

end Schema

/-- The definitions of a schema, and its package if it names one. -/
structure Schema where
  package : Option String
  definitions : List Schema.Definition
  deriving DecidableEq

namespace Schema

def Field.withoutPosition (f : Field) : Field := { f with position := .none }

def Definition.withoutPositions (d : Definition) : Definition :=
  { d with position := .none, fields := d.fields.map Field.withoutPosition }

/-- The same schema, of no text. -/
def withoutPositions (s : Schema) : Schema :=
  { s with definitions := s.definitions.map Definition.withoutPositions }

/-- The first definition of a name. -/
def definition? (s : Schema) (name : String) : Option Definition :=
  s.definitions.find? (·.name == name)

end Schema

end WireSchema
