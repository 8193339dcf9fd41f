import WireSchema.Proofs.Except
import WireSchema.Proofs.Primitive
import WireSchema.Proofs.Schema.Documented
import WireSchema.Proofs.Schema.Types
import WireSchema.Proofs.Writing
import WireSchema.Schema.Binary

/-! Binary schemas read back. Between a schema and its bytes stands its raw form, in which types are
ids: what is written are the bytes of the raw form, these are read as the raw form, and its ids lead
back to the names of types, the last definition of a name standing for all of that name. -/

namespace WireSchema.Schema

open Reader (Reads Takes reads_bind reads_cursor reads_pure takes_string takes_int takes_uint)

variable {s : Schema} {d : Definition} {f : Field} {kind : Kind} {place : Nat}

/-! ### Raw forms -/

def Field.raw (s : Schema) (kind : Kind) (place : Nat) (f : Field) : RawField :=
  ⟨f.name, (f.typeId s).toOption.getD 0, f.flags, (f.valueAt kind place).toUInt32⟩

def Definition.raw (s : Schema) (d : Definition) : RawDefinition :=
  ⟨d.name, d.kind, d.fields.zipIdx.map fun p => p.1.raw s d.kind p.2⟩

def RawField.bytes (f : RawField) : List UInt8 :=
  Wire.string f.name ++ (Wire.int f.typeId ++ ([f.flags] ++ Wire.uint f.value))

def RawDefinition.bytes (d : RawDefinition) : List UInt8 :=
  Wire.string d.name ++
    ([byteOf d.kind] ++ (Wire.count d.fields ++ d.fields.flatMap RawField.bytes))

/-! ### Writing -/

theorem Field.negative_iff : (kind = .message ∧ (f.valueAt kind place).toInt < 0) ↔
    ¬ (kind = .message → 0 ≤ f.value.toInt) := by
  cases kind with
  | message => simp [valueAt]
  | _ => simp

theorem Field.exists_typeId_iff : (∃ id, f.typeId s = .ok id) ↔
    ∀ name, f.typeName = some name → (s.typeOf? name).isSome = true := by
  rw [typeId]
  cases f.typeName with
  | none => simp
  | some name => cases h : s.typeOf? name <;> simp [h]

theorem Field.succeeds_write_iff : (f.write s kind place).Succeeds ↔
    (∀ name, f.typeName = some name → (s.typeOf? name).isSome = true) ∧
      (kind = .message → 0 ≤ f.value.toInt) := by
  rw [← exists_typeId_iff, write, Writing.succeeds_append]
  cases hid : f.typeId s with
  | error e => simp
  | ok id =>
    simp only [Writing.succeeds_append, Writing.succeeds_bytes, true_and,
      Except.ok.injEq, exists_eq']
    split
    · rename_i hvalue
      exact iff_of_false (Writing.not_succeeds_fail _) (negative_iff.mp hvalue)
    · rename_i hvalue
      exact iff_of_true (Writing.succeeds_bytes _) (not_not.mp fun h => hvalue (negative_iff.mpr h))

theorem Field.written_write (h : (f.write s kind place).Succeeds) :
    (f.write s kind place).written = (f.raw s kind place).bytes := by
  obtain ⟨htype, hvalue⟩ := succeeds_write_iff.mp h
  obtain ⟨id, hid⟩ := exists_typeId_iff.mpr htype
  have hraw : f.raw s kind place = ⟨f.name, id, f.flags, (f.valueAt kind place).toUInt32⟩ := by
    rw [raw, hid]
    rfl
  rw [hraw, write, hid, if_neg (by simpa [negative_iff] using hvalue)]
  simp only [Writing.written_append, Writing.succeeds_bytes, Writing.written_bytes, RawField.bytes,
    List.append_assoc]

theorem Definition.succeeds_write_iff : (d.write s).Succeeds ↔
    ∀ p ∈ d.fields.zipIdx, (p.1.write s d.kind p.2).Succeeds := by
  rw [write, Writing.succeeds_append, Writing.succeeds_concat, List.forall_mem_map]
  simp only [Writing.succeeds_bytes, true_and]

theorem Definition.written_write (h : (d.write s).Succeeds) :
    (d.write s).written = (d.raw s).bytes := by
  have hfields := succeeds_write_iff.mp h
  rw [write, Writing.written_append (Writing.succeeds_bytes _),
    Writing.written_concat (List.forall_mem_map.mpr hfields), Writing.written_bytes,
    List.flatMap_map]
  have hcount : Wire.count (d.raw s).fields = Wire.count d.fields := by
    rw [Wire.count, raw, List.length_map, List.length_zipIdx, Wire.count]
  have hbytes : d.fields.zipIdx.flatMap (fun p => (p.1.write s d.kind p.2).written) =
      (d.raw s).fields.flatMap RawField.bytes := by
    rw [raw, List.flatMap_map]
    apply List.flatMap_congr
    intro p hp
    exact Field.written_write (hfields p hp)
  rw [RawDefinition.bytes, hcount, ← hbytes]
  simp only [raw, List.append_assoc]

/-- The bytes of a schema that has a binary form are those of its raw form. -/
theorem toBinary_eq_ok {bytes : List UInt8} : s.toBinary.result = .ok bytes ↔
    (∀ d ∈ s.definitions, (d.write s).Succeeds) ∧ Wire.count s.definitions ++
      (s.definitions.map (Definition.raw s)).flatMap RawDefinition.bytes = bytes := by
  have hsucceeds : Writing.Succeeds (Writing.bytes (Wire.count s.definitions) ++
      Writing.concat (s.definitions.map (Definition.write s))) ↔
      ∀ d ∈ s.definitions, (d.write s).Succeeds := by
    rw [Writing.succeeds_append, Writing.succeeds_concat, List.forall_mem_map]
    simp
  have hwritten : (∀ d ∈ s.definitions, (d.write s).Succeeds) →
      (Writing.bytes (Wire.count s.definitions) ++
        Writing.concat (s.definitions.map (Definition.write s))).written =
      Wire.count s.definitions ++
        (s.definitions.map (Definition.raw s)).flatMap RawDefinition.bytes := by
    intro h
    rw [Writing.written_append (Writing.succeeds_bytes _),
      Writing.written_concat (List.forall_mem_map.mpr h), Writing.written_bytes, List.flatMap_map,
      List.flatMap_map]
    exact congrArg _ (List.flatMap_congr fun d hd => Definition.written_write (h d hd))
  rw [toBinary]
  split
  · rename_i e he
    apply iff_of_false (by simp [Noted.fail])
    intro h
    have := (hsucceeds.mpr h.1).symm.trans he
    simp at this
  · rename_i hok
    have h := hsucceeds.mp hok
    rw [hwritten h]
    exact ⟨fun hresult => ⟨h, Except.ok.inj hresult⟩, fun hbytes => congrArg Except.ok hbytes.2⟩

/-! ### Reading -/

theorem kindOf?_byteOf (kind : Kind) : kindOf? (byteOf kind) = some kind := by
  cases kind <;> rfl

theorem takes_readField {f : RawField} (hname : Char.ofNat 0 ∉ f.name.toList)
    (hcheck : f.check kind = .ok ()) : Takes (readField kind) f.bytes f := by
  apply (takes_string hname).mapError.bind
  apply (takes_int f.typeId).mapError.bind
  apply (Takes.byte f.flags).mapError.bind
  apply (takes_uint f.value).mapError.map
  dsimp only
  rw [hcheck]
  exact Takes.pure f

theorem takes_readDefinition {d : RawDefinition} (hname : Char.ofNat 0 ∉ d.name.toList)
    (hlength : d.fields.length < 2 ^ 32)
    (hfields : ∀ f ∈ d.fields, Char.ofNat 0 ∉ f.name.toList ∧ f.check d.kind = .ok ()) :
    Takes readDefinition d.bytes d := by
  have hcount : (UInt32.ofNat d.fields.length).toNat = d.fields.length :=
    UInt32.toNat_ofNat_of_lt' hlength
  have htimes : Takes ((readField d.kind).times d.fields.length)
      (d.fields.flatMap RawField.bytes) (d.fields.map id) :=
    Takes.times fun f hf => takes_readField (hfields f hf).1 (hfields f hf).2
  apply (takes_string hname).mapError.bind
  apply (Takes.byte (byteOf d.kind)).mapError.bind
  rw [kindOf?_byteOf]
  apply (takes_uint (UInt32.ofNat d.fields.length)).mapError.bind
  rw [hcount]
  rw [List.map_id] at htimes
  exact htimes.map (Takes.pure d)

theorem reads_readDefinitions {ds : List RawDefinition} (hlength : ds.length < 2 ^ 32)
    (h : ∀ d ∈ ds, Takes readDefinition d.bytes d) : ∃ c, Reads readDefinitions
      (Cursor.start (Wire.count ds ++ ds.flatMap RawDefinition.bytes)) ds c := by
  have hcount : (UInt32.ofNat ds.length).toNat = ds.length := UInt32.toNat_ofNat_of_lt' hlength
  have htimes :
      Takes (readDefinition.times ds.length) (ds.flatMap RawDefinition.bytes) (ds.map id) :=
    Takes.times h
  have hds := htimes (0 + (Wire.count ds).length) []
  rw [List.map_id, List.append_nil] at hds
  refine ⟨⟨0 + (Wire.count ds).length + (ds.flatMap RawDefinition.bytes).length, []⟩, ?_⟩
  refine reads_bind.mpr ⟨_, _, (takes_uint (UInt32.ofNat ds.length)).mapError 0 _, ?_⟩
  rw [hcount]
  refine reads_bind.mpr ⟨ds, _, hds, ?_⟩
  refine reads_bind.mpr ⟨_, _, reads_cursor.mpr ⟨rfl, rfl⟩, ?_⟩
  rw [if_neg (by simp [Cursor.remaining])]
  exact reads_pure.mpr ⟨rfl, rfl⟩

/-! ### Types by name again -/

theorem Field.isArray_raw : (f.raw s kind place).isArray = f.isArray := by
  have hflags : ∀ a b : Bool, decide (((if a = true then 1 else 0 : UInt8) +
      if b = true then 2 else 0).toNat % 2 = 1) = a := by decide
  exact hflags f.isArray f.isDeprecated

theorem Field.isDeprecated_raw : (f.raw s kind place).isDeprecated = f.isDeprecated := by
  have hflags : ∀ a b : Bool, decide (((if a = true then 1 else 0 : UInt8) +
      if b = true then 2 else 0).toNat / 2 % 2 = 1) = b := by decide
  exact hflags f.isArray f.isDeprecated

theorem Field.flags_lt : f.flags.toNat < 4 := by
  have hflags : ∀ a b : Bool, ((if a = true then 1 else 0 : UInt8) +
      if b = true then 2 else 0).toNat < 4 := by decide
  exact hflags f.isArray f.isDeprecated

/-- The checks refuse other flags than the two, a deprecated field outside a message, and an id from
`2^31` on. -/
theorem RawField.check_eq_ok_iff {f : RawField} : f.check kind = .ok () ↔
    f.flags.toNat < 4 ∧ (f.isDeprecated = true → kind = .message) ∧
    (kind = .message → f.value.toNat < 2 ^ 31) := by
  rw [check]
  split_ifs with hflags hdeprecated hvalue
  · exact iff_of_false nofun fun h => absurd h.1 (Nat.not_lt.mpr hflags)
  · exact iff_of_false nofun fun h => hdeprecated.2 (h.2.1 hdeprecated.1)
  · exact iff_of_false nofun fun h => absurd (h.2.2 hvalue.1) (Nat.not_lt.mpr hvalue.2)
  · refine iff_of_true rfl ⟨Nat.lt_of_not_le hflags, fun h => ?_, fun h => ?_⟩
    · by_contra hkind
      exact hdeprecated ⟨h, hkind⟩
    · exact Nat.lt_of_not_le fun hlarge => hvalue ⟨h, hlarge⟩

/-- A field that can be written passes the checks of reading. -/
theorem Field.check_raw (hf : f.Documented kind place) (hid : kind = .message → 0 ≤ f.value.toInt) :
    (f.raw s kind place).check kind = .ok () := by
  refine RawField.check_eq_ok_iff.mpr ⟨flags_lt, fun h => hf.deprecated (isDeprecated_raw ▸ h), ?_⟩
  rintro rfl
  show f.value.toUInt32.toNat < 2 ^ 31
  rw [Int32.toNat_toUInt32_of_le (Int32.le_iff_toInt_le.mpr (hid rfl))]
  exact f.value.toNatClampNeg_lt

/-- The id of a type leads back to the name by which the field has it. -/
theorem Field.typeName_raw {name : String} (hsize : s.definitions.length < 2 ^ 31)
    (hname : f.typeName = some name) (htype : (s.typeOf? name).isSome = true) :
    (f.raw s kind place).typeName (s.definitions.map (·.name)) = .ok name := by
  obtain ⟨type, htype⟩ := Option.isSome_iff_exists.mp htype
  have hid : (f.raw s kind place).typeId = type.id := by
    simp only [raw, typeId, hname, htype]
    rfl
  rw [RawField.typeName, hid, List.length_map]
  rcases typeOf?_eq_some htype with hprimitive | ⟨index, rfl, hindex⟩
  · rw [TypeRef.ofId?_id_primitive hprimitive]
    cases type with
    | definition index => simp [TypeRef.name?] at hprimitive
    | _ => exact congrArg (fun name => Except.ok (Option.getD name "")) hprimitive
  · have hlt : index < s.definitions.length := by
      have := (List.getElem?_eq_some_iff.mp hindex).1
      rwa [List.length_map] at this
    rw [TypeRef.ofId?_id_definition hlt hsize]
    simp [hindex]

theorem RawField.resolve_enum {names : List String} {f : RawField} : f.resolve names .enum =
    .ok ⟨f.name, .none, none, f.isArray, f.isDeprecated, f.value.toInt32⟩ := rfl

theorem RawField.resolve_typed {names : List String} {name : String} {f : RawField}
    (hkind : kind ≠ .enum) (hname : f.typeName names = .ok name) : f.resolve names kind =
      .ok ⟨f.name, .none, some name, f.isArray, f.isDeprecated, f.value.toInt32⟩ := by
  cases kind with
  | enum => exact absurd rfl hkind
  | struct => exact Except.bind_eq_ok.mpr ⟨name, hname, rfl⟩
  | message => exact Except.bind_eq_ok.mpr ⟨name, hname, rfl⟩

/-- A field of the data model comes back from its raw form, without its place in the text. -/
theorem Field.resolve_raw (hsize : s.definitions.length < 2 ^ 31) (hf : f.Documented kind place)
    (htype : ∀ name, f.typeName = some name → (s.typeOf? name).isSome = true) :
    (f.raw s kind place).resolve (s.definitions.map (·.name)) kind = .ok f.withoutPosition := by
  have hvalue : (f.raw s kind place).value.toInt32 = f.value := by
    have hvalueAt : f.valueAt kind place = f.value := by
      cases kind with
      | enum => rfl
      | struct => exact (hf.value rfl).symm
      | message => rfl
    rw [raw, hvalueAt, Int32.toInt32_toUInt32]
  by_cases hkind : kind = .enum
  · have hname : f.typeName = none := by
      rw [← Option.not_isSome_iff_eq_none, hf.typeName]
      exact not_not.mpr hkind
    rw [hkind] at hvalue ⊢
    rw [RawField.resolve_enum, isArray_raw, isDeprecated_raw, hvalue, withoutPosition, hname]
    rfl
  · obtain ⟨name, hname⟩ := Option.isSome_iff_exists.mp (hf.typeName.mpr hkind)
    rw [RawField.resolve_typed hkind (typeName_raw hsize hname (htype name hname)), isArray_raw,
      isDeprecated_raw, hvalue, withoutPosition, hname]
    rfl

theorem Definition.resolve_raw (hsize : s.definitions.length < 2 ^ 31) (hd : d.Documented)
    (hwrite : (d.write s).Succeeds) :
    (d.raw s).resolve (s.definitions.map (·.name)) = .ok d.withoutPositions := by
  have hplaced : d.fields.map Field.withoutPosition =
      d.fields.zipIdx.map fun p => p.1.withoutPosition := by
    calc d.fields.map Field.withoutPosition
        = (d.fields.zipIdx.map Prod.fst).map Field.withoutPosition := by rw [List.zipIdx_map_fst]
      _ = d.fields.zipIdx.map fun p => p.1.withoutPosition := List.map_map
  have hfields : (d.raw s).fields.mapM (RawField.resolve (s.definitions.map (·.name)) d.kind) =
      .ok (d.fields.map Field.withoutPosition) := by
    rw [Except.mapM_eq_ok, raw, hplaced, List.forall₂_map_left_iff, List.forall₂_map_right_iff,
      List.forall₂_same]
    intro p hp
    obtain ⟨htype, -⟩ := Field.succeeds_write_iff.mp (succeeds_write_iff.mp hwrite p hp)
    exact Field.resolve_raw hsize (hd.fields p hp) htype
  exact Except.bind_eq_ok.mpr ⟨_, hfields, rfl⟩

theorem takes_raw (hd : d.Documented) (hlength : d.fields.length < 2 ^ 32)
    (hwrite : (d.write s).Succeeds) : Takes readDefinition (d.raw s).bytes (d.raw s) := by
  apply takes_readDefinition hd.name (by simpa [Definition.raw] using hlength)
  rw [Definition.raw, List.forall_mem_map]
  intro p hp
  have hf := hd.fields p hp
  obtain ⟨-, hid⟩ := Field.succeeds_write_iff.mp (Definition.succeeds_write_iff.mp hwrite p hp)
  exact ⟨hf.name, Field.check_raw hf hid⟩

/-- The bytes of a schema are read as its raw form. -/
theorem exists_reads_of_toBinary {bytes : List UInt8} (hs : s.Documented)
    (hsize : s.definitions.length < 2 ^ 31)
    (hfields : ∀ d ∈ s.definitions, d.fields.length < 2 ^ 31) (h : s.toBinary.result = .ok bytes) :
    ∃ c, Reads readDefinitions (Cursor.start bytes) (s.definitions.map (Definition.raw s)) c := by
  obtain ⟨hwrite, rfl⟩ := toBinary_eq_ok.mp h
  have hcount : Wire.count s.definitions = Wire.count (s.definitions.map (Definition.raw s)) := by
    rw [Wire.count, Wire.count, List.length_map]
  have hlength : (s.definitions.map (Definition.raw s)).length < 2 ^ 32 := by
    rw [List.length_map]
    omega
  rw [hcount]
  refine reads_readDefinitions hlength (List.forall_mem_map.mpr fun d hd => ?_)
  exact takes_raw (hs d hd) (by have := hfields d hd; omega) (hwrite d hd)

theorem ofBinary_of_toBinary {bytes : List UInt8} (hs : s.Documented)
    (hsize : s.definitions.length < 2 ^ 31)
    (hfields : ∀ d ∈ s.definitions, d.fields.length < 2 ^ 31) (h : s.toBinary.result = .ok bytes) :
    (ofBinary bytes).result = .ok { s.withoutPositions with package := none } := by
  obtain ⟨c, hread, -⟩ := exists_reads_of_toBinary hs hsize hfields h
  obtain ⟨hwrite, -⟩ := toBinary_eq_ok.mp h
  have hnames : (s.definitions.map (Definition.raw s)).map (·.name) =
      s.definitions.map (·.name) := by
    rw [List.map_map]
    rfl
  have hresolve : (s.definitions.map (Definition.raw s)).mapM
      (RawDefinition.resolve (s.definitions.map (·.name))) =
      .ok (s.definitions.map Definition.withoutPositions) := by
    rw [Except.mapM_eq_ok, List.forall₂_map_left_iff, List.forall₂_map_right_iff, List.forall₂_same]
    exact fun d hd => Definition.resolve_raw hsize (hs d hd) (hwrite d hd)
  simp only [ofBinary, hread, hnames, hresolve]
  rfl

/-- A schema of the data model, and so any that was parsed, has a binary form exactly if its types
exist and its message ids are not negative, and it comes back from that but for its package and its
places in a text. -/
theorem toBinary_inverse (hs : s.Documented ∨ ∃ text, parse text = .ok s)
    (hsize : s.definitions.length < 2 ^ 31)
    (hfields : ∀ d ∈ s.definitions, d.fields.length < 2 ^ 31) :
    ((∃ bytes, s.toBinary.result = .ok bytes) ↔ ∀ d ∈ s.definitions, ∀ f ∈ d.fields,
      (d.kind ≠ .enum → ∀ name, f.typeName = some name →
        TypeRef.isPrimitiveName name = true ∨ ∃ d' ∈ s.definitions, d'.name = name) ∧
      (d.kind = .message → 0 ≤ f.value.toInt)) ∧
    ∀ bytes, s.toBinary.result = .ok bytes →
      (ofBinary bytes).result = .ok { s.withoutPositions with package := none } := by
  have hdocumented : s.Documented := by
    rcases hs with hs | ⟨text, htext⟩
    · exact hs
    · exact documented_of_parse htext
  refine ⟨?_, fun bytes h => ofBinary_of_toBinary hdocumented hsize hfields h⟩
  have hexists : (∃ bytes, s.toBinary.result = .ok bytes) ↔
      ∀ d ∈ s.definitions, (d.write s).Succeeds := by
    simp [toBinary_eq_ok]
  rw [hexists]
  apply forall₂_congr
  intro d hd
  rw [Definition.succeeds_write_iff]
  simp only [Field.succeeds_write_iff, isSome_typeOf?_iff]
  constructor
  · intro h f hf
    obtain ⟨place, hplace⟩ := List.mem_iff_getElem?.mp hf
    obtain ⟨htype, hid⟩ := h (f, place) (List.mem_zipIdx_iff_getElem?.mpr hplace)
    exact ⟨fun _ => htype, hid⟩
  · intro h p hp
    obtain ⟨htype, hid⟩ := h p.1 (List.mem_of_getElem? (List.mem_zipIdx_iff_getElem?.mp hp))
    refine ⟨fun name hname => htype ?_ name hname, hid⟩
    -- only an entry of an enum has no type
    rw [← ((hdocumented d hd).fields p hp).typeName, hname]
    rfl

/-- Two definitions of one name, a definition with the name of a primitive, a type defined later and
a negative entry. -/
theorem toBinary_inverse_shadowed :
    let s : Schema := ⟨some "shapes", [
      ⟨"Shape", ⟨2, 8⟩, .struct, [⟨"next", ⟨3, 11⟩, some "Shape", true, false, 1⟩,
        ⟨"side", ⟨4, 7⟩, some "int", false, false, 2⟩]⟩,
      ⟨"int", ⟨6, 9⟩, .message, [⟨"old", ⟨7, 9⟩, some "Shape", false, true, 0⟩]⟩,
      ⟨"Shape", ⟨9, 6⟩, .enum, [⟨"NONE", ⟨10, 3⟩, none, false, false, -1⟩]⟩]⟩
    ∃ bytes, s.toBinary.result = .ok bytes ∧
      (ofBinary bytes).result = .ok { s.withoutPositions with package := none } := by
  intro s
  obtain ⟨hwrite, hread⟩ := toBinary_inverse (s := s) (.inl (by decide)) (by decide) (by decide)
  obtain ⟨bytes, hbytes⟩ := hwrite.mpr (by decide)
  exact ⟨bytes, hbytes, hread bytes hbytes⟩

end WireSchema.Schema
