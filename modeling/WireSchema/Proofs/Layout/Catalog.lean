import WireSchema.Attempt
import WireSchema.Proofs.Catalog.Alteration
import WireSchema.Proofs.Schema.Printable
import WireSchema.Proofs.Value.Conformity
import WireSchema.Schema.Layout

/-! The layout of binary schemas as a catalog, and raw forms of schemas as values of it: such a
value is written as the bytes of the raw form. -/

namespace WireSchema

namespace Catalog

/-! ### Values that are written as bytes alone -/

theorem write_string {c : Catalog} {text : String} (h : Char.ofNat 0 ∉ text.toList) :
    c.write (.string text) (.one .string) = Writing.bytes (Wire.string text) := by
  rw [write, writeString, if_neg (by simpa using h)]

/-- A struct is written as its fields are, one after the other. -/
theorem write_struct {c : Catalog} {index : Nat} {d : Definition} {members : List (String × Value)}
    {pieces : List (List UInt8)} (hd : c.definitions[index]? = some d) (hk : d.kind = .struct)
    (hdeclared : ∀ p ∈ members, ∃ f ∈ d.fields, f.name = p.1)
    (h : List.Forall₂
      (fun f bs => ∃ v, Table.get? f.name members = some v ∧ c.write v f.shape = Writing.bytes bs)
      d.fields pieces) :
    c.write (.object d.name members) (.one (.definition index)) = Writing.bytes pieces.flatten := by
  have hcheck : checkMembers d (c.memberWriters members) = Writing.empty := by
    have hsucceeds := succeeds_checkMembers (c := c).mpr hdeclared
    unfold checkMembers at hsucceeds ⊢
    split at hsucceeds
    · exact absurd hsucceeds (Writing.not_succeeds_fail _)
    · rfl
  have hfields : Writing.concat (d.fields.map (writeStructField d (c.memberWriters members))) =
      Writing.bytes pieces.flatten := by
    refine Writing.concat_eq_bytes (List.forall₂_map_left_iff.mpr (h.imp ?_))
    rintro f bs ⟨v, hv, hwrite⟩
    rw [writeStructField, get?_memberWriters, hv]
    exact hwrite
  rw [write_object hd (by simp [hk]), writeObject, hk]
  dsimp only
  rw [hcheck, hfields, Writing.empty_append]

theorem write_items {α : Type} {c : Catalog} {type : TypeRef} {value : α → Value}
    {encode : α → List UInt8} {as : List α}
    (h : ∀ a ∈ as, c.write (value a) (.one type) = Writing.bytes (encode a)) :
    c.write (.array (as.map value)) (.many type) =
      Writing.bytes (Wire.count as ++ as.flatMap encode) := by
  have hitems :
    List.Forall₂ (fun w bs => w = Writing.bytes bs)
      ((as.map value).map fun v => c.write v (.one type)) (as.map encode) := by
    rw [List.map_map, List.forall₂_map_left_iff, List.forall₂_map_right_iff, List.forall₂_same]
    exact h
  rw [write_array, Writing.concat_eq_bytes hitems, Wire.count, List.length_map, Wire.count,
    List.flatMap_def]
  rfl

end Catalog

namespace Schema

/-! ### The catalog of the layout -/

/-- The schema that `layout` spells, without its places in the text. -/
def layoutSchema : Schema := ⟨none, [
  ⟨"DefinitionKind", .none, .enum, [⟨"ENUM", .none, none, false, false, 0⟩,
    ⟨"STRUCT", .none, none, false, false, 1⟩, ⟨"MESSAGE", .none, none, false, false, 2⟩]⟩,
  ⟨"Field", .none, .struct, [⟨"name", .none, some "string", false, false, 1⟩,
    ⟨"type", .none, some "int", false, false, 2⟩, ⟨"flags", .none, some "byte", false, false, 3⟩,
    ⟨"value", .none, some "uint", false, false, 4⟩]⟩,
  ⟨"Definition", .none, .struct, [⟨"name", .none, some "string", false, false, 1⟩,
    ⟨"kind", .none, some "DefinitionKind", false, false, 2⟩,
    ⟨"fields", .none, some "Field", true, false, 3⟩]⟩,
  ⟨"BinarySchema", .none, .struct, [⟨"definitions", .none, some "Definition", true, false, 1⟩]⟩]⟩

/-- What the catalog has of each definition of the layout. -/
def kindLayout : Catalog.Definition :=
  ⟨"DefinitionKind", .enum, [⟨"ENUM", .uint, false, false, 0⟩, ⟨"STRUCT", .uint, false, false, 1⟩,
    ⟨"MESSAGE", .uint, false, false, 2⟩]⟩

def fieldLayout : Catalog.Definition :=
  ⟨"Field", .struct, [⟨"name", .string, false, false, 1⟩, ⟨"type", .int, false, false, 2⟩,
    ⟨"flags", .byte, false, false, 3⟩, ⟨"value", .uint, false, false, 4⟩]⟩

def definitionLayout : Catalog.Definition :=
  ⟨"Definition", .struct, [⟨"name", .string, false, false, 1⟩,
    ⟨"kind", .definition 0, false, false, 2⟩, ⟨"fields", .definition 1, true, false, 3⟩]⟩

def schemaLayout : Catalog.Definition :=
  ⟨"BinarySchema", .struct, [⟨"definitions", .definition 2, true, false, 1⟩]⟩

def layoutCatalog : Catalog := ⟨[kindLayout, fieldLayout, definitionLayout, schemaLayout]⟩

theorem ofText_layout : (Catalog.ofText layout).result = .ok layoutCatalog := by
  have hprint : layout = layoutSchema.print := by decide +kernel
  have hcompile : layoutSchema.compile.result = .ok layoutCatalog := by decide
  obtain ⟨s, hparse, hbare⟩ := exists_parse_print (s := layoutSchema) (by decide) (by decide)
  rw [Catalog.ofText, Noted.result_bind_eq_ok]
  refine ⟨s, ?_,
    Noted.result_mapError_eq_ok.mpr ((compile_iff_of_withoutPositions hbare).mpr hcompile)⟩
  rw [ofText, Noted.result_ofExcept, Except.mapError_eq_ok, hprint]
  exact hparse

/-! ### Raw forms as values -/

def kindValue : Kind → Value
  | .enum => .enum "DefinitionKind" "ENUM"
  | .struct => .enum "DefinitionKind" "STRUCT"
  | .message => .enum "DefinitionKind" "MESSAGE"

def RawField.toValue (f : RawField) : Value :=
  .object "Field" [("flags", .byte f.flags), ("name", .string f.name), ("type", .int f.typeId),
    ("value", .uint f.value)]

def RawDefinition.toValue (d : RawDefinition) : Value :=
  .object "Definition" [("fields", .array (d.fields.map RawField.toValue)),
    ("kind", kindValue d.kind), ("name", .string d.name)]

def rawValue (ds : List RawDefinition) : Value :=
  .object "BinarySchema" [("definitions", .array (ds.map RawDefinition.toValue))]

/-! ### The bytes of these values -/

theorem write_kind (kind : Kind) :
    layoutCatalog.write (kindValue kind) (.one (.definition 0)) = Writing.bytes [byteOf kind] := by
  cases kind <;> decide

theorem write_field {f : RawField} (hname : Char.ofNat 0 ∉ f.name.toList) :
    layoutCatalog.write f.toValue (.one (.definition 1)) = Writing.bytes f.bytes := by
  have hpieces : f.bytes =
      [Wire.string f.name, Wire.int f.typeId, [f.flags], Wire.uint f.value].flatten := by
    simp [RawField.bytes]
  rw [hpieces]
  refine Catalog.write_struct (d := fieldLayout) rfl rfl (by simp [fieldLayout]) ?_
  refine .cons ⟨_, rfl, Catalog.write_string hname⟩
    (.cons ⟨_, rfl, ?_⟩ (.cons ⟨_, rfl, ?_⟩ (.cons ⟨_, rfl, ?_⟩ .nil)))
  all_goals rfl

theorem write_definition {d : RawDefinition} (hname : Char.ofNat 0 ∉ d.name.toList)
    (hfields : ∀ f ∈ d.fields, Char.ofNat 0 ∉ f.name.toList) :
    layoutCatalog.write d.toValue (.one (.definition 2)) = Writing.bytes d.bytes := by
  have hpieces : d.bytes = [Wire.string d.name, [byteOf d.kind],
      Wire.count d.fields ++ d.fields.flatMap RawField.bytes].flatten := by
    simp [RawDefinition.bytes]
  have hitems :
      layoutCatalog.write (.array (d.fields.map RawField.toValue)) (.many (.definition 1)) =
        Writing.bytes (Wire.count d.fields ++ d.fields.flatMap RawField.bytes) :=
    Catalog.write_items fun f hf => write_field (hfields f hf)
  rw [hpieces]
  refine Catalog.write_struct (d := definitionLayout) rfl rfl (by simp [definitionLayout]) ?_
  exact .cons ⟨_, rfl, Catalog.write_string hname⟩
    (.cons ⟨_, rfl, write_kind d.kind⟩ (.cons ⟨_, rfl, hitems⟩ .nil))

theorem write_schema {ds : List RawDefinition}
    (h : ∀ d ∈ ds, Char.ofNat 0 ∉ d.name.toList ∧ ∀ f ∈ d.fields, Char.ofNat 0 ∉ f.name.toList) :
    layoutCatalog.write (rawValue ds) (.one (.definition 3)) =
      Writing.bytes (Wire.count ds ++ ds.flatMap RawDefinition.bytes) := by
  have hitems :
      layoutCatalog.write (.array (ds.map RawDefinition.toValue)) (.many (.definition 2)) =
        Writing.bytes (Wire.count ds ++ ds.flatMap RawDefinition.bytes) :=
    Catalog.write_items fun d hd => write_definition (h d hd).1 (h d hd).2
  rw [← List.append_nil (Wire.count ds ++ _)]
  exact Catalog.write_struct (d := schemaLayout) rfl rfl (by simp [schemaLayout])
    (.cons ⟨_, rfl, hitems⟩ .nil)

end Schema

end WireSchema
