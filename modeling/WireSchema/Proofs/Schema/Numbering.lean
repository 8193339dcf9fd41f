import WireSchema.Proofs.Catalog.Alteration
import WireSchema.Proofs.Catalog.Resolution
import WireSchema.Proofs.Schema.Binary
import WireSchema.Schema.Printer

/-! Schemas whose struct fields have their places for values. Nothing looks at the value that a
struct field has: not the checks, nor compiling, nor the binary form, nor the canonical text. So a
schema may be taken to be numbered by its places wherever one of these is made of it. -/

namespace WireSchema.Schema

variable {s : Schema} {d : Definition} {f : Field} {kind : Kind} {place : Nat}

def Field.numbered (kind : Kind) (place : Nat) (f : Field) : Field :=
  { f with value := f.valueAt kind place }

def Definition.numbered (d : Definition) : Definition :=
  { d with fields := d.fields.zipIdx.map fun p => p.1.numbered d.kind p.2 }

/-- The same schema, with the struct fields numbered by their places. -/
def numbered (s : Schema) : Schema :=
  { s with definitions := s.definitions.map Definition.numbered }

@[simp] theorem Definition.name_numbered (d : Definition) : d.numbered.name = d.name := rfl

@[simp] theorem Definition.kind_numbered (d : Definition) : d.numbered.kind = d.kind := rfl

@[simp] theorem Definition.length_fields_numbered (d : Definition) :
    d.numbered.fields.length = d.fields.length := by
  simp [numbered]

@[simp] theorem length_definitions_numbered (s : Schema) :
    s.numbered.definitions.length = s.definitions.length :=
  List.length_map _

theorem Field.numbered_of_kind (hk : kind ≠ .struct) : f.numbered kind place = f := by
  cases kind with
  | struct => exact absurd rfl hk
  | _ => rfl

/-- Only structs are numbered. -/
theorem Definition.numbered_of_kind (hk : d.kind ≠ .struct) : d.numbered = d := by
  have hfields : d.fields.zipIdx.map (fun p => p.1.numbered d.kind p.2) = d.fields := by
    simp only [Field.numbered_of_kind hk, List.zipIdx_map_fst]
  rw [numbered, hfields]

/-- A property of fields in which values play no part. -/
theorem Definition.map_fields_numbered {α : Type} {p : Field → α}
    (hp : ∀ f value, p { f with value := value } = p f)
    (d : Definition) : d.numbered.fields.map p = d.fields.map p := by
  have hfield : p ∘ (fun q : Field × Nat => q.1.numbered d.kind q.2) = p ∘ Prod.fst := by
    funext q
    exact hp q.1 _
  rw [numbered, List.map_map, hfield, ← List.map_map, List.zipIdx_map_fst]

theorem Definition.forall_typeName_numbered {p : Option String → Prop} (d : Definition) :
    (∀ f ∈ d.numbered.fields, p f.typeName) ↔ ∀ f ∈ d.fields, p f.typeName := by
  rw [← List.forall_mem_map (f := Field.typeName) (P := p), map_fields_numbered fun _ _ => rfl,
    List.forall_mem_map]

theorem Definition.contained_numbered (d : Definition) : d.numbered.contained = d.contained := by
  have hmap : ∀ d : Definition, d.contained =
      ((d.fields.map fun f => (f.isArray, f.typeName)).filter (!·.1)).filterMap (·.2) := by
    intro d
    rw [List.filter_map, List.filterMap_map]
    rfl
  rw [hmap, hmap, map_fields_numbered fun _ _ => rfl]

/-- The fields of a numbered definition with their places. -/
theorem Definition.zipIdx_fields_numbered (d : Definition) :
    d.numbered.fields.zipIdx = d.fields.zipIdx.map fun p => (p.1.numbered d.kind p.2, p.2) := by
  have hplaces : ∀ (fields : List Field) (n : Nat),
      (fields.zipIdx n).zipIdx n = (fields.zipIdx n).map fun p => (p, p.2) := by
    intro fields
    induction fields with
    | nil => exact fun _ => rfl
    | cons f fields ih => exact fun n => by simp [List.zipIdx_cons, ih]
  rw [numbered, List.zipIdx_map, hplaces, List.map_map]
  rfl

theorem Definition.withoutPositions_numbered (d : Definition) :
    d.numbered.withoutPositions = d.withoutPositions.numbered := by
  have hfields : (d.fields.zipIdx.map fun p => p.1.numbered d.kind p.2).map Field.withoutPosition =
      (d.fields.map Field.withoutPosition).zipIdx.map fun p => p.1.numbered d.kind p.2 := by
    rw [List.zipIdx_map, List.map_map, List.map_map]
    rfl
  rw [numbered, withoutPositions, hfields]
  rfl

theorem withoutPositions_numbered (s : Schema) :
    s.numbered.withoutPositions = s.withoutPositions.numbered := by
  simp only [numbered, withoutPositions, List.map_map, Function.comp_def,
    Definition.withoutPositions_numbered]

theorem map_definitions_numbered {α : Type} {p q : Definition → α} (h : ∀ d, p d.numbered = q d)
    (s : Schema) : s.numbered.definitions.map p = s.definitions.map q := by
  rw [numbered, List.map_map]
  exact List.map_congr_left fun d _ => h d

theorem names_numbered (s : Schema) : s.numbered.definitions.map (·.name) =
    s.definitions.map (·.name) :=
  map_definitions_numbered (fun _ => rfl) s

/-! ### Compiling -/

theorem typeOf?_numbered (s : Schema) (name : String) : s.numbered.typeOf? name = s.typeOf? name :=
  typeOf?_of_names (names_numbered s) name

theorem exists_mem_numbered {p : Definition → Prop} :
    (∃ d ∈ s.numbered.definitions, p d) ↔ ∃ d ∈ s.definitions, p d.numbered := by
  simp [numbered]

theorem forall_mem_numbered {p : Definition → Prop} :
    (∀ d ∈ s.numbered.definitions, p d) ↔ ∀ d ∈ s.definitions, p d.numbered := List.forall_mem_map

theorem embeds_numbered_iff {a b : String} : s.numbered.Embeds a b ↔ s.Embeds a b := by
  simp only [Embeds, ← Definition.mem_contained, exists_mem_numbered, Definition.name_numbered,
    Definition.kind_numbered, Definition.contained_numbered]

theorem valid_numbered_iff : s.numbered.Valid ↔ s.Valid := by
  have hembeds : s.numbered.Embeds = s.Embeds := by
    ext a b
    exact embeds_numbered_iff
  have hfieldNames : ∀ d : Definition, d.numbered.fields.map (·.name) = d.fields.map (·.name) :=
    Definition.map_fields_numbered fun _ _ => rfl
  rw [valid_iff, valid_iff, hembeds, names_numbered]
  simp only [forall_mem_numbered, exists_mem_numbered, Definition.name_numbered,
    Definition.kind_numbered, hfieldNames]
  refine and_congr_right fun _ => and_congr_right fun _ => and_congr_right fun _ =>
    and_congr ?values (and_congr ?types (and_congr_left fun _ => ?ids))
  case values =>
    exact forall₃_congr fun d _ hk => by rw [Definition.numbered_of_kind (by simp [hk])]
  case types =>
    exact forall₃_congr fun d _ _ =>
      d.forall_typeName_numbered (p := fun type => ∃ name, type = some name ∧
        (TypeRef.isPrimitiveName name = true ∨ ∃ d ∈ s.definitions, d.name = name))
  case ids => exact forall₃_congr fun d _ hk => by rw [Definition.numbered_of_kind (by simp [hk])]

theorem Field.resolved_numbered (f : Field) :
    (f.numbered kind place).resolved s.numbered kind place = f.resolved s kind place := by
  have htype : s.numbered.typeOf? = s.typeOf? := funext (typeOf?_numbered s)
  cases kind <;> simp [resolved, numbered, valueAt, htype]

theorem Definition.resolved_numbered (d : Definition) :
    d.numbered.resolved s.numbered = d.resolved s := by
  simp only [resolved, zipIdx_fields_numbered, List.map_map, Function.comp_def, kind_numbered,
    name_numbered, Field.resolved_numbered]

/-- What is compiled knows no value of a struct field. -/
theorem compile_numbered_iff {c : Catalog} :
    s.numbered.compile.result = .ok c ↔ s.compile.result = .ok c := by
  have hknown : ∀ d : Definition, (∀ f ∈ d.numbered.fields, f.Known s.numbered) ↔
      ∀ f ∈ d.fields, f.Known s := by
    intro d
    simp only [Field.Known, typeOf?_numbered]
    exact d.forall_typeName_numbered (p := fun type => ∀ name, type = some name →
      (s.typeOf? name).isSome = true)
  rw [compile_eq_ok_iff_valid, compile_eq_ok_iff_valid, valid_numbered_iff, forall_mem_numbered,
    map_definitions_numbered Definition.resolved_numbered]
  simp only [hknown]

/-! ### Binary form and canonical text -/

theorem Field.write_numbered (f : Field) :
    (f.numbered kind place).write s.numbered kind place = f.write s kind place := by
  have hid : (f.numbered kind place).typeId s.numbered = f.typeId s := by
    simp only [typeId, numbered, typeOf?_numbered]
  have hvalue : (f.numbered kind place).valueAt kind place = f.valueAt kind place := by
    cases kind <;> rfl
  rw [write, write, hid, hvalue]
  rfl

theorem Definition.write_numbered (d : Definition) : d.numbered.write s.numbered = d.write s := by
  have hcount : Wire.count d.numbered.fields = Wire.count d.fields := by
    rw [Wire.count, Wire.count, length_fields_numbered]
  simp only [write, zipIdx_fields_numbered, List.map_map, Function.comp_def, kind_numbered,
    name_numbered, Field.write_numbered, hcount]

theorem toBinary_numbered (s : Schema) : s.numbered.toBinary = s.toBinary := by
  have hcount : Wire.count s.numbered.definitions = Wire.count s.definitions := by
    rw [Wire.count, Wire.count, length_definitions_numbered]
  rw [toBinary, toBinary, hcount, map_definitions_numbered Definition.write_numbered,
    length_definitions_numbered]

theorem Definition.print_numbered (d : Definition) : d.numbered.print = d.print := by
  by_cases hk : d.kind = .struct
  · have hlines : d.numbered.fields.map (·.line .struct) = d.fields.map (·.line .struct) :=
      map_fields_numbered (fun _ _ => rfl) d
    rw [print, print, kind_numbered, hk, hlines, name_numbered]
  · rw [numbered_of_kind hk]

theorem print_numbered (s : Schema) : s.numbered.print = s.print := by
  rw [print, print, map_definitions_numbered Definition.print_numbered]
  rfl

end WireSchema.Schema
