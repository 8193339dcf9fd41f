import WireSchema.Proofs.Layout.Reading

/-! Binary schemas agree with their layout: whatever is read of them is shown by the value that the
catalog of the layout reads from the same bytes, and this value is written as these bytes again. -/

namespace WireSchema.Schema

open Reader (Reads Fails Mirrors)

variable {s : Schema} {kind : Kind} {bytes : List UInt8}

/-! ### What a value shows of a schema -/

/-- The name of the type with an id: a primitive's own, or that of a definition of the schema. -/
def nameOfId? (s : Schema) (id : Int32) : Option String :=
  match TypeRef.ofId? id s.definitions.length with
  | some (.definition index) => s.definitions[index]?.map (·.name)
  | some primitive => primitive.name?
  | none => none

/-- A value with the name, the flags and the value of a field, and with a type id that stands for
the field's type. -/
inductive Field.Shown (s : Schema) (kind : Kind) (f : Field) : Value → Prop
  | mk (typeId : Int32)
      (htype : kind ≠ .enum →
        (s.nameOfId? typeId).isSome = true ∧ f.typeName = s.nameOfId? typeId) :
      Shown s kind f (.object "Field" [("flags", .byte f.flags), ("name", .string f.name),
        ("type", .int typeId), ("value", .uint f.value.toUInt32)])

inductive Definition.Shown (s : Schema) (d : Definition) : Value → Prop
  | mk {fields : List Value} (hfields : List.Forall₂ (Field.Shown s d.kind) d.fields fields) :
      Shown s d (.object "Definition" [("fields", .array fields), ("kind", kindValue d.kind),
        ("name", .string d.name)])

/-- A value that shows the definitions of a schema one by one. -/
inductive Shown (s : Schema) : Value → Prop
  | mk {definitions : List Value}
      (h : List.Forall₂ (Definition.Shown s) s.definitions definitions) :
      Shown s (.object "BinarySchema" [("definitions", .array definitions)])

theorem RawField.flags_eq {f : RawField} (h : f.check kind = .ok ()) :
    (if f.isArray then 1 else 0) + (if f.isDeprecated then 2 else 0) = f.flags := by
  have hlt := (check_eq_ok_iff.mp h).1
  apply UInt8.toNat_inj.mp
  unfold isArray isDeprecated
  obtain hf | hf | hf | hf : f.flags.toNat = 0 ∨ f.flags.toNat = 1 ∨ f.flags.toNat = 2 ∨
    f.flags.toNat = 3 := by omega
  all_goals
    rw [hf]
    rfl

/-- The name that resolving finds for a type is that of its id. -/
theorem RawField.nameOfId?_of_typeName {f : RawField} {name : String}
    (h : f.typeName (s.definitions.map (·.name)) = .ok name) :
    s.nameOfId? f.typeId = some name := by
  rw [typeName, List.length_map] at h
  unfold nameOfId?
  cases htype : TypeRef.ofId? f.typeId s.definitions.length with
  | none => simp [htype] at h
  | some type =>
    rw [htype] at h
    cases type with
    | definition index =>
      have hindex := TypeRef.lt_of_ofId? htype
      simpa [hindex] using h
    | _ => simpa [TypeRef.name?] using h

theorem RawField.shown {f : RawField} {g : Field} (hcheck : f.check kind = .ok ())
    (h : f.resolve (s.definitions.map (·.name)) kind = .ok g) : g.Shown s kind f.toValue := by
  have hshown : ∀ typeName : Option String,
      (kind ≠ .enum → (s.nameOfId? f.typeId).isSome = true ∧ typeName = s.nameOfId? f.typeId) →
        Field.Shown s kind
          ⟨f.name, .none, typeName, f.isArray, f.isDeprecated, f.value.toInt32⟩ f.toValue := by
    intro typeName htype
    have hmk := Field.Shown.mk (s := s)
      (f := ⟨f.name, .none, typeName, f.isArray, f.isDeprecated, f.value.toInt32⟩) f.typeId htype
    rwa [Field.flags, flags_eq hcheck, UInt32.toUInt32_toInt32] at hmk
  by_cases hkind : kind = .enum
  · subst hkind
    obtain rfl := Except.ok.inj (resolve_enum.symm.trans h)
    exact hshown none fun h => absurd rfl h
  · obtain ⟨name, hname, rfl⟩ := of_resolve hkind h
    have hid := nameOfId?_of_typeName hname
    exact hshown (some name) fun _ => ⟨by rw [hid]; rfl, hid.symm⟩

theorem RawDefinition.shown {d : RawDefinition} {g : Definition} (hchecked : d.Checked)
    (h : d.resolve (s.definitions.map (·.name)) = .ok g) : g.Shown s d.toValue := by
  obtain ⟨name, position, kind, fields⟩ := g
  obtain ⟨rfl, -, rfl, hfields⟩ := of_resolve h
  have hall := (List.forall₂_and_left _ _).mpr ⟨hchecked, hfields⟩
  exact .mk (List.forall₂_map_right_iff.mpr (hall.imp fun f g h => RawField.shown h.1 h.2).flip)

/-- What is read of a binary schema is shown by the value of its raw form. -/
theorem shown_of_ofBinary (h : (ofBinary bytes).result = .ok s) :
    ∃ v, (layoutCatalog.decode "BinarySchema" bytes).result = .ok v ∧ s.Shown v := by
  obtain ⟨raw, c, hread, hresolve, -⟩ := ofBinary_eq_ok.mp h
  obtain ⟨hraw, hend⟩ := reads_readDefinitions_iff.mp hread
  obtain ⟨_, ⟨hchecked, rfl⟩, hvalue⟩ := mirrors_definitions.reads hraw
  refine ⟨rawValue raw, decode_eq_ok_iff.mpr ⟨c, hvalue, hend⟩, .mk ?_⟩
  have hdefinitions := Except.mapM_eq_ok.mp hresolve
  have hnames : s.definitions.map (·.name) = raw.map (·.name) :=
    Except.map_eq_of_forall₂ hdefinitions fun hg => (RawDefinition.of_resolve hg).1
  rw [← hnames] at hdefinitions
  have hall := (List.forall₂_and_left _ _).mpr ⟨hchecked, hdefinitions⟩
  exact List.forall₂_map_right_iff.mpr (hall.imp fun d g h => RawDefinition.shown h.1 h.2).flip

/-- Whatever can be read as a value does not lack bytes as a binary schema. -/
theorem ofBinary_ne_buffer {v : Value}
    (h : (layoutCatalog.decode "BinarySchema" bytes).result = .ok v)
    (e : BufferError) : (ofBinary bytes).result ≠ .error (.buffer e) := by
  intro hfails
  obtain ⟨c, hread, -⟩ := decode_eq_ok_iff.mp h
  have hraw := fails_of_fails_readDefinitions (fails_of_ofBinary hfails)
  have hF : FailsToo (.buffer e) .tooDeep := ⟨e, rfl⟩
  obtain ⟨e', -, hvalue⟩ := mirrors_definitions.fails hraw hF
  exact hread.not_fails hvalue

/-- The two part where a kind is a number of two bytes. -/
example : (layoutCatalog.decode "BinarySchema" [1, 97, 0, 128, 0, 0]).result =
      .ok (rawValue [⟨"a", .enum, []⟩]) ∧
    (ofBinary [1, 97, 0, 128, 0, 0]).result = .error (.badKind 128 "a") := by
  constructor <;> rfl

/-- The bytes of a schema are those of the value that is read from them. -/
theorem encode_of_toBinary (hs : s.Documented) (hsize : s.definitions.length < 2 ^ 31)
    (hfields : ∀ d ∈ s.definitions, d.fields.length < 2 ^ 31) (h : s.toBinary.result = .ok bytes) :
    ∃ v, (layoutCatalog.decode "BinarySchema" bytes).result = .ok v ∧
      (layoutCatalog.encode "BinarySchema" v).result = .ok bytes := by
  obtain ⟨c, hread⟩ := exists_reads_of_toBinary hs hsize hfields h
  obtain ⟨hraw, hend⟩ := reads_readDefinitions_iff.mp hread
  obtain ⟨_, ⟨-, rfl⟩, hvalue⟩ := mirrors_definitions.reads hraw
  obtain ⟨-, rfl⟩ := toBinary_eq_ok.mp h
  refine ⟨_, decode_eq_ok_iff.mpr ⟨c, hvalue, hend⟩, ?_⟩
  have htype : layoutCatalog.typeOf? "BinarySchema" = some (.definition 3) := by decide
  have hnames : ∀ d ∈ s.definitions.map (Definition.raw s), Char.ofNat 0 ∉ d.name.toList ∧
      ∀ f ∈ d.fields, Char.ofNat 0 ∉ f.name.toList := by
    refine List.forall_mem_map.mpr fun d hd => ⟨(hs d hd).name, ?_⟩
    exact List.forall_mem_map.mpr fun p hp => ((hs d hd).fields p hp).name
  rw [Catalog.encode, htype]
  dsimp only
  rw [Catalog.encodeAs, Catalog.writeValue, write_schema hnames, Wire.count, List.length_map]
  rfl

/-- Binary schemas are values of their layout. What can be read of them is what the value shows,
whatever can be read as a value lacks no bytes as a binary schema, and a schema that was parsed has
the bytes of its value. -/
theorem ofBytes_agrees_with_layout : ∃ c, (Catalog.ofText layout).result = .ok c ∧
    (∀ bytes s, (ofBytes bytes).result = .ok s →
      ∃ v, (c.valueOfBytes "BinarySchema" bytes).result = .ok v ∧ s.Shown v) ∧
    (∀ bytes v, (c.valueOfBytes "BinarySchema" bytes).result = .ok v →
      (∃ s, (ofBytes bytes).result = .ok s) ∨ ∃ e, (ofBytes bytes).result = .error (.binary e)) ∧
    ∀ text s bytes, (ofText text).result = .ok s → s.definitions.length < 2 ^ 31 →
      (∀ d ∈ s.definitions, d.fields.length < 2 ^ 31) → s.toBytes.result = .ok bytes →
      ∃ v, (c.valueOfBytes "BinarySchema" bytes).result = .ok v ∧
        (c.valueToBytes "BinarySchema" v).result = .ok bytes := by
  refine ⟨layoutCatalog, ofText_layout, fun bytes s h => ?_, fun bytes v h => ?_,
    fun text s bytes hs hsize hfields h => ?_⟩
  · obtain ⟨v, hv, hshown⟩ := shown_of_ofBinary (Noted.result_mapError_eq_ok.mp h)
    exact ⟨v, Noted.result_mapError_eq_ok.mpr hv, hshown⟩
  · have hne := ofBinary_ne_buffer (Noted.result_mapError_eq_ok.mp h)
    show (∃ s, (ofBinary bytes).result.mapError Failure.ofBinary = .ok s) ∨
      ∃ e, (ofBinary bytes).result.mapError Failure.ofBinary = .error (.binary e)
    cases hresult : (ofBinary bytes).result with
    | ok s => exact .inl ⟨s, rfl⟩
    | error e =>
      refine .inr ⟨e, ?_⟩
      cases e with
      | buffer e => exact absurd hresult (hne e)
      | _ => rfl
  · have hdocumented := documented_of_parse (Except.mapError_eq_ok.mp hs)
    obtain ⟨v, hv, hbytes⟩ :=
      encode_of_toBinary hdocumented hsize hfields (Noted.result_mapError_eq_ok.mp h)
    exact ⟨v, Noted.result_mapError_eq_ok.mpr hv, Noted.result_mapError_eq_ok.mpr hbytes⟩

/-- A negative entry, a type defined later, a deprecated array and a package. -/
theorem ofBytes_agrees_with_layout_negative :
    let text :=
      "package shapes; message Shape { Side[] sides = 1 [deprecated]; } enum Side { NONE = -1; }"
    let bytes : List UInt8 :=
      [2, 83, 104, 97, 112, 101, 0, 2, 1, 115, 105, 100, 101, 115, 0, 2, 3, 1,
        83, 105, 100, 101, 0, 0, 1, 78, 79, 78, 69, 0, 0, 0, 255, 255, 255, 255, 15]
    ∃ c s s' v, (Catalog.ofText layout).result = .ok c ∧ (ofText text).result = .ok s ∧
      s.toBytes.result = .ok bytes ∧
      (ofBytes bytes).result = .ok s' ∧ (c.valueOfBytes "BinarySchema" bytes).result = .ok v ∧
      s'.Shown v ∧ (c.valueToBytes "BinarySchema" v).result = .ok bytes := by
  intro text bytes
  let s : Schema := ⟨some "shapes", [
    ⟨"Shape", ⟨1, 25⟩, .message, [⟨"sides", ⟨1, 40⟩, some "Side", true, true, 1⟩]⟩,
    ⟨"Side", ⟨1, 71⟩, .enum, [⟨"NONE", ⟨1, 78⟩, none, false, false, -1⟩]⟩]⟩
  have hparse : parse text = .ok s := by decide +kernel
  have htext : (ofText text).result = .ok s := Except.mapError_eq_ok.mpr hparse
  have hbinary : s.toBinary.result = .ok bytes := by decide +kernel
  have hbytes : s.toBytes.result = .ok bytes := Noted.result_mapError_eq_ok.mpr hbinary
  have hread : (ofBinary bytes).result = .ok { s.withoutPositions with package := none } := by
    decide +kernel
  obtain ⟨c, hc, hshown, -, hwritten⟩ := ofBytes_agrees_with_layout
  obtain ⟨v, hv, hv'⟩ := hshown bytes _ (Noted.result_mapError_eq_ok.mpr hread)
  obtain ⟨v', hw, hw'⟩ := hwritten text s bytes htext (by decide) (by decide) hbytes
  obtain rfl := Except.ok.inj (hv.symm.trans hw)
  exact ⟨c, s, _, v, hc, htext, hbytes, Noted.result_mapError_eq_ok.mpr hread, hv, hv', hw'⟩

end WireSchema.Schema
