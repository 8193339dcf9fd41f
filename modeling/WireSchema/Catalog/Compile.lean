import WireSchema.Catalog.Basic
import WireSchema.Note
import WireSchema.Schema.Validity

/-! The catalog of a schema: once the schema is found valid, each type name becomes the place of its
definition, negative values become their two's complement, and struct fields are numbered from 1. -/

namespace WireSchema.Schema

def Field.compile (s : Schema) (kind : Kind) (f : Field) (place : Nat) :
    Except ValidityError Catalog.Field := do
  let type ← match f.typeName with
    | none => pure TypeRef.uint
    | some name =>
      match s.typeOf? name with
      | some type => pure type
      | none => .error ⟨.unknownType name, .none⟩
  let value := match kind with
    | .struct => UInt32.ofNat (place + 1)
    | _ => f.value.toUInt32
  return ⟨f.name, type, f.isArray, f.isDeprecated, value⟩

def Definition.compile (s : Schema) (d : Definition) : Except ValidityError Catalog.Definition := do
  let fields ← d.fields.zipIdx.mapM fun (f, place) => f.compile s d.kind place
  return ⟨d.name, d.kind, fields⟩

/-- The definitions of a valid schema with their types resolved. -/
def resolve (s : Schema) : Except ValidityError Catalog := do
  s.check
  return ⟨← s.definitions.mapM (Definition.compile s)⟩

/-- The catalog of a schema, if the schema is valid. -/
def compile (s : Schema) : Noted ValidityError Catalog :=
  match s.resolve with
  | .error e => Noted.fail e
  | .ok catalog => do
    Noted.note (.compiled s.package catalog.definitions.length)
    return catalog

end WireSchema.Schema
