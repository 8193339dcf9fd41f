import WireSchema.Schema.Basic
import WireSchema.Table
import WireSchema.TypeRef

/-! Catalogs: definitions in which every type is resolved, so that values can be written and read
without looking at names of types again. A catalog may also be put together by hand; then places may
lead nowhere, and names and values may repeat, in which case the last one counts. -/

namespace WireSchema

namespace Catalog

/-- A field. For an enum the value is that of the entry and the type an unsigned number; for a
message the value is the id of the field; for a struct it is the place, counted from 1. -/
structure Field where
  name : String
  type : TypeRef
  isArray : Bool
  isDeprecated : Bool
  value : UInt32
  deriving DecidableEq

/-- A definition. Its index is its place in the list of its catalog. -/
structure Definition where
  name : String
  kind : Kind
  fields : List Field
  deriving DecidableEq

namespace Definition

variable (d : Definition)

def indexOfName? (name : String) : Option Nat := lastIndex? (·.name == name) d.fields

def indexOfValue? (value : UInt32) : Option Nat := lastIndex? (·.value == value) d.fields

def field? (name : String) : Option Field := (d.indexOfName? name).bind (d.fields[·]?)

def fieldOfValue? (value : UInt32) : Option Field := (d.indexOfValue? value).bind (d.fields[·]?)

def names : List (String × Nat) := Table.ofPairs (d.fields.zipIdx.map fun (f, i) => (f.name, i))

def values : List (UInt32 × Nat) := Table.ofPairs (d.fields.zipIdx.map fun (f, i) => (f.value, i))

end Definition

end Catalog

/-- Definitions by their places. -/
structure Catalog where
  definitions : List Catalog.Definition
  deriving DecidableEq

namespace Catalog

variable (c : Catalog)

def indexOf? (name : String) : Option Nat := lastIndex? (·.name == name) c.definitions

def definition? (name : String) : Option Definition := (c.indexOf? name).bind (c.definitions[·]?)

def names : List (String × Nat) :=
  Table.ofPairs (c.definitions.zipIdx.map fun (d, i) => (d.name, i))

/-- The type of a name, primitives first. -/
def typeOf? (name : String) : Option TypeRef :=
  TypeRef.ofName? name <|> (c.indexOf? name).map .definition

/-- What a place that leads nowhere is called. -/
def nowhere (index : Nat) : String := s!"#{index}"

def typeName : TypeRef → String
  | .definition index => (c.definitions[index]?.map (·.name)).getD (nowhere index)
  | type => type.name?.getD ""

/-- Whether values of a type take no bytes, looking through at most `levels` structs. -/
def zeroWidthWithin : Nat → TypeRef → Bool
  | levels + 1, .definition index =>
    match c.definitions[index]? with
    | some ⟨_, .struct, fields⟩ =>
      fields.all fun f => !f.isArray && zeroWidthWithin levels f.type
    | _ => false
  | _, _ => false

/-- Whether values of a type take no bytes: it is a struct, and its fields are such structs and no
arrays. More structs inside one another than there are definitions make a cycle. -/
def isZeroWidth (type : TypeRef) : Bool := c.zeroWidthWithin (c.definitions.length + 1) type

def enumValues? (name : String) : Option (List (String × UInt32)) :=
  match c.definition? name with
  | some ⟨_, .enum, fields⟩ => some (Table.ofPairs (fields.map fun f => (f.name, f.value)))
  | _ => none

def enumNames? (name : String) : Option (List (UInt32 × String)) :=
  match c.definition? name with
  | some ⟨_, .enum, fields⟩ => some (Table.ofPairs (fields.map fun f => (f.value, f.name)))
  | _ => none

end Catalog

end WireSchema
