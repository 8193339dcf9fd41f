import WireSchema.Schema.Basic
import WireSchema.Table
import WireSchema.TypeRef

/-! The types that names stand for in a schema: a primitive, or else a definition. -/

namespace WireSchema.Schema

/-- The place of the definition of a name: of several, the last. -/
def indexOf? (s : Schema) (name : String) : Option Nat :=
  lastIndex? (·.name == name) s.definitions

/-- The type that a name stands for. -/
def typeOf? (s : Schema) (name : String) : Option TypeRef :=
  TypeRef.ofName? name <|> (s.indexOf? name).map .definition

end WireSchema.Schema
