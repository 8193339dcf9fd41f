import WireSchema.Schema.Types
import WireSchema.Text.Quoted

/-! Which schemas make sense. Names are free and not used twice, values of an enum and ids of a
message are used once, ids are positive, types exist, and no struct contains itself through fields
that are not arrays. `check` reports the first problem, looking at names of definitions, then at the
definitions one by one, then at containment. -/

namespace WireSchema

namespace Schema

inductive Flaw
  | reservedName (name : String)
  | repeatedDefinition (name : String)
  | repeatedField (field definition : String)
  | repeatedValue (entry : String)
  | unknownFieldType (type field : String)
  | notPositive (field : String)
  | repeatedId (field : String)
  | recursive (struct : String)
  | unknownType (type : String)
  deriving DecidableEq

open Text in
def Flaw.message : Flaw → String
  | reservedName name => s!"The type name {quoteJson name} is reserved"
  | repeatedDefinition name => s!"The type {quoteJson name} is defined twice"
  | repeatedField field definition =>
    s!"The field {quoteJson field} is defined twice in {quoteJson definition}"
  | repeatedValue entry => s!"The value for enum {quoteJson entry} is used twice"
  | unknownFieldType type field =>
    s!"The type {quoteJson type} is not defined for field {quoteJson field}"
  | notPositive field => s!"The id for field {quoteJson field} must be positive"
  | repeatedId field => s!"The id for field {quoteJson field} is used twice"
  | recursive struct => s!"Recursive nesting of {quoteJson struct} is not allowed"
  | unknownType type => s!"The type {quoteJson type} is not defined"

/-- A flaw and the place where it shows. -/
structure ValidityError where
  flaw : Flaw
  position : Position
  deriving DecidableEq

def ValidityError.message (e : ValidityError) : String := e.flaw.message ++ e.position.suffix

/-- Names that no definition may have, besides those of primitives. -/
def reservedNames : List String := ["ByteBuffer", "package"]

def isReserved (name : String) : Bool :=
  TypeRef.isPrimitiveName name || reservedNames.contains name

def struct? (s : Schema) (name : String) : Option Definition :=
  match s.definition? name with
  | some d => if d.kind = .struct then some d else none
  | none => none

/-- The names of the types that a definition holds a value of each, not an array. -/
def Definition.contained (d : Definition) : List String :=
  (d.fields.filter (!·.isArray)).filterMap (·.typeName)

/-- Names of definitions are free, and none is among those `seen` before. -/
def checkNames : List String → List Definition → Except ValidityError Unit
  | _, [] => .ok ()
  | seen, d :: rest =>
    if isReserved d.name then .error ⟨.reservedName d.name, d.position⟩
    else if seen.contains d.name then .error ⟨.repeatedDefinition d.name, d.position⟩
    else checkNames (d.name :: seen) rest

def Definition.checkFieldNames (d : Definition) : Except ValidityError Unit :=
  match firstRepeat? Field.name [] d.fields with
  | some f => .error ⟨.repeatedField f.name d.name, f.position⟩
  | none => .ok ()

def Definition.checkValues (d : Definition) : Except ValidityError Unit :=
  match firstRepeat? Field.value [] d.fields with
  | some f => .error ⟨.repeatedValue f.name, f.position⟩
  | none => .ok ()

def checkTypes (s : Schema) (d : Definition) : Except ValidityError Unit :=
  match d.fields.find? (fun f => !f.typeName.any fun name => (s.typeOf? name).isSome) with
  | some f => .error ⟨.unknownFieldType (f.typeName.getD "") f.name, f.position⟩
  | none => .ok ()

/-- Ids are positive, and none is among those `seen` before. -/
def checkIds : List Int32 → List Field → Except ValidityError Unit
  | _, [] => .ok ()
  | seen, f :: rest =>
    if f.value.toInt ≤ 0 then .error ⟨.notPositive f.name, f.position⟩
    else if seen.contains f.value then .error ⟨.repeatedId f.name, f.position⟩
    else checkIds (f.value :: seen) rest

def checkDefinition (s : Schema) (d : Definition) : Except ValidityError Unit := do
  d.checkFieldNames
  match d.kind with
  | .enum => d.checkValues
  | .struct => s.checkTypes d
  | .message => do
    s.checkTypes d
    checkIds [] d.fields

/-- Walks from a type to all that it contains. `path` holds the structs that the walk is inside of,
and `cleared` those that it has left; answers the latter. A walk as deep as there are definitions
meets one of them again. -/
def clear (s : Schema) : Nat → List String → List String → String →
    Except ValidityError (List String)
  | 0, _, cleared, _ => .ok cleared
  | depth + 1, path, cleared, name =>
    match s.struct? name with
    | none => .ok cleared
    | some d =>
      if path.contains name then .error ⟨.recursive name, d.position⟩
      else if cleared.contains name then .ok cleared
      else do
        let cleared ← d.contained.foldlM
          (fun seen type => s.clear depth (name :: path) seen type) cleared
        .ok (name :: cleared)

/-- No struct contains itself. -/
def checkContainment (s : Schema) : Except ValidityError Unit := do
  let _ ← s.definitions.foldlM
    (fun cleared d => s.clear (s.definitions.length + 1) [] cleared d.name) []

/-- The first problem of a schema, if there is one. -/
def check (s : Schema) : Except ValidityError Unit := do
  checkNames [] s.definitions
  s.definitions.forM s.checkDefinition
  s.checkContainment

end Schema

end WireSchema
