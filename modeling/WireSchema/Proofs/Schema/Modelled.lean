import WireSchema.Attempt
import WireSchema.Proofs.Schema.Decoding

/-! The data model, as far as the bytes of a schema can break it. Reading refuses deprecated fields
outside messages, ids below zero and types that are not there, and takes the type from an entry of
an enum. Two things it takes as they come: the array mark of an entry, and the value of a struct
field. So what is read keeps to the data model exactly if the bytes have these two as the data model
has them. -/

namespace WireSchema.Schema

open Reader (Reads)

variable {s : Schema} {kind : Kind} {bytes : List UInt8}

/-- A type that a field can have: a primitive, or a definition of the schema. -/
def Names (s : Schema) (typeName : Option String) : Prop :=
  ∃ name, typeName = some name ∧
    (TypeRef.isPrimitiveName name = true ∨ ∃ d ∈ s.definitions, d.name = name)

/-- A field of a definition of some kind, but for the array mark of an entry of an enum and the
value of a struct field. -/
structure Field.Sound (s : Schema) (kind : Kind) (f : Field) : Prop where
  entry : kind = .enum → f.typeName = none
  typeName : kind ≠ .enum → s.Names f.typeName
  deprecated : f.isDeprecated = true → kind = .message
  id : kind = .message → 0 ≤ f.value.toInt ∧ f.value.toInt < 2 ^ 31

/-- A schema of no text, with sound fields. -/
structure Sound (s : Schema) : Prop where
  package : s.package = none
  positions : s.withoutPositions = s
  fields : ∀ d ∈ s.definitions, ∀ f ∈ d.fields, f.Sound s d.kind

/-- A schema of no text that keeps to the data model: no entry of an enum is an array, and the value
of a struct field is its place, counted from 1. -/
structure Modelled (s : Schema) : Prop extends s.Sound where
  isArray : ∀ d ∈ s.definitions, d.kind = .enum → ∀ f ∈ d.fields, f.isArray = false
  value : ∀ d ∈ s.definitions, d.kind = .struct → ∀ p ∈ d.fields.zipIdx, p.1.value.toInt = p.2 + 1

/-- A raw definition that keeps to the data model: if it is an enum, its entries have no flags, and
if it is a struct, its fields are numbered by their places, counted from 1 and below `2 ^ 31`. -/
structure RawDefinition.Plain (d : RawDefinition) : Prop where
  flags : d.kind = .enum → ∀ f ∈ d.fields, f.flags = 0
  value : d.kind = .struct → ∀ p ∈ d.fields.zipIdx, p.1.value.toNat = p.2 + 1 ∧ p.2 + 1 < 2 ^ 31

instance (d : RawDefinition) : Decidable d.Plain :=
  decidable_of_iff ((d.kind = .enum → ∀ f ∈ d.fields, f.flags = 0) ∧
      (d.kind = .struct → ∀ p ∈ d.fields.zipIdx, p.1.value.toNat = p.2 + 1 ∧ p.2 + 1 < 2 ^ 31))
    ⟨fun ⟨hflags, hvalue⟩ => ⟨hflags, hvalue⟩, fun h => ⟨h.flags, h.value⟩⟩

/-! ### Fields -/

theorem RawField.of_typeName {names : List String} {f : RawField} {name : String}
    (h : f.typeName names = .ok name) : TypeRef.isPrimitiveName name = true ∨ name ∈ names := by
  rw [typeName] at h
  cases htype : TypeRef.ofId? f.typeId names.length with
  | none => simp [htype] at h
  | some type =>
    rw [htype] at h
    cases type with
    | definition index =>
      have hindex := TypeRef.lt_of_ofId? htype
      obtain rfl : names[index] = name := by simpa [hindex] using h
      exact .inr (List.getElem_mem hindex)
    | _ =>
      obtain rfl := Except.ok.inj h
      exact .inl (by decide)

/-- A value read as a signed number: the upper half of the numbers are those below zero. -/
theorem toInt_toInt32 (value : UInt32) :
    value.toInt32.toInt =
      if 2 * value.toNat < 2 ^ 32 then (value.toNat : Int) else value.toNat - 2 ^ 32 := by
  show value.toBitVec.toInt = _
  rw [BitVec.toInt_eq_toNat_cond]
  rfl

theorem toInt_toInt32_eq_iff (value : UInt32) (place : Nat) :
    value.toInt32.toInt = place + 1 ↔ value.toNat = place + 1 ∧ place + 1 < 2 ^ 31 := by
  have hlt := value.toNat_lt
  rw [toInt_toInt32]
  split <;> omega

/-- A field that passed its check is sound. -/
theorem RawField.sound_of_resolve {f : RawField} {g : Field} (hcheck : f.check kind = .ok ())
    (h : f.resolve (s.definitions.map (·.name)) kind = .ok g) : g.Sound s kind := by
  obtain ⟨-, hdeprecated, hvalue⟩ := check_eq_ok_iff.mp hcheck
  have hid : kind = .message → 0 ≤ f.value.toInt32.toInt ∧ f.value.toInt32.toInt < 2 ^ 31 := by
    intro hk
    have hlt := hvalue hk
    rw [toInt_toInt32, if_pos (by omega)]
    omega
  by_cases hk : kind = .enum
  · subst hk
    obtain rfl := Except.ok.inj (resolve_enum.symm.trans h)
    exact ⟨fun _ => rfl, fun hk => absurd rfl hk, hdeprecated, hid⟩
  · obtain ⟨name, hname, rfl⟩ := of_resolve hk h
    refine ⟨fun h => absurd h hk, fun _ => ⟨name, rfl, ?_⟩, hdeprecated, hid⟩
    simpa using of_typeName hname

/-- An entry is no array exactly if it has no flags at all, since it cannot be deprecated. -/
theorem RawField.isArray_eq_false_iff {f : RawField} (hcheck : f.check .enum = .ok ()) :
    f.isArray = false ↔ f.flags = 0 := by
  obtain ⟨hlt, hdeprecated, -⟩ := check_eq_ok_iff.mp hcheck
  have hflags : f.flags = 0 ↔ f.flags.toNat = 0 := UInt8.toNat_inj.symm
  have hplain : ¬ f.flags.toNat / 2 % 2 = 1 := by simpa [isDeprecated] using hdeprecated
  rw [hflags, isArray, decide_eq_false_iff_not]
  omega

/-! ### Definitions -/

/-- What a definition says of array marks and struct fields is what its raw form says. -/
theorem RawDefinition.plain_iff_of_resolve {names : List String} {d : RawDefinition}
    {g : Definition} (hchecked : d.Checked) (h : d.resolve names = .ok g) : d.Plain ↔
      (g.kind = .enum → ∀ f ∈ g.fields, f.isArray = false) ∧
        (g.kind = .struct → ∀ p ∈ g.fields.zipIdx, p.1.value.toInt = p.2 + 1) := by
  obtain ⟨-, -, hkind, hfields⟩ := of_resolve h
  have hall := (List.forall₂_and_left _ _).mpr ⟨hchecked, hfields⟩
  have hflags : d.kind = .enum →
      ((∀ f ∈ d.fields, f.flags = 0) ↔ ∀ f ∈ g.fields, f.isArray = false) := by
    intro hk
    rw [hk] at hall
    refine Except.forall_mem_iff_of_forall₂ hall fun {f _} hf => ?_
    obtain ⟨_, -, rfl⟩ := RawField.exists_of_resolve hf.2
    exact (RawField.isArray_eq_false_iff hf.1).symm
  have hvalue : (∀ p ∈ d.fields.zipIdx, p.1.value.toNat = p.2 + 1 ∧ p.2 + 1 < 2 ^ 31) ↔
      ∀ p ∈ g.fields.zipIdx, p.1.value.toInt = p.2 + 1 := by
    refine Except.forall_mem_iff_of_forall₂ (Except.zipIdx_of_forall₂ hfields 0) fun {p _} hp => ?_
    obtain ⟨_, -, hg⟩ := RawField.exists_of_resolve hp.1
    rw [← hg, ← hp.2]
    exact (toInt_toInt32_eq_iff p.1.value p.2).symm
  rw [hkind, ← imp_congr_right hflags, ← hvalue]
  exact ⟨fun h => ⟨h.flags, h.value⟩, fun h => ⟨h.1, h.2⟩⟩

/-! ### Schemas -/

/-- What is read of a schema is sound, whatever the bytes. It keeps to the data model exactly if its
entries have no flags in the bytes, and its struct fields are numbered by their places there. -/
theorem ofBytes_modelled_iff (h : (ofBytes bytes).result = .ok s) : s.Sound ∧
    ∃ raw stop, Reads readDefinitions (.start bytes) raw stop ∧
      (s.Modelled ↔ ∀ d ∈ raw, d.Plain) := by
  replace h := Noted.result_mapError_eq_ok.mp h
  have hdecoded := decoded_of_ofBinary h
  obtain ⟨raw, stop, hread, hresolve, -⟩ := ofBinary_eq_ok.mp h
  have hchecked : ∀ d ∈ raw, d.Checked := fun d hd => (legible_of_reads hread d hd).checked
  have hdefinitions := Except.mapM_eq_ok.mp hresolve
  have hnames : s.definitions.map (·.name) = raw.map (·.name) :=
    Except.map_eq_of_forall₂ hdefinitions fun hg => (RawDefinition.of_resolve hg).1
  rw [← hnames] at hdefinitions
  have hsound : s.Sound := by
    refine ⟨hdecoded.package, hdecoded.positions, fun g hg f hf => ?_⟩
    obtain ⟨d, hd, hresolve⟩ := Except.exists_of_forall₂ hdefinitions hg
    obtain ⟨-, -, hkind, hfields⟩ := RawDefinition.of_resolve hresolve
    obtain ⟨r, hr, hresolve⟩ := Except.exists_of_forall₂ hfields hf
    exact hkind ▸ RawField.sound_of_resolve (hchecked d hd r hr) hresolve
  refine ⟨hsound, raw, stop, hread, ?_⟩
  have hall := (List.forall₂_and_left _ _).mpr ⟨hchecked, hdefinitions⟩
  rw [Except.forall_mem_iff_of_forall₂ hall fun h => RawDefinition.plain_iff_of_resolve h.1 h.2]
  exact ⟨fun h g hg => ⟨h.isArray g hg, h.value g hg⟩,
    fun h => ⟨hsound, fun g hg => (h g hg).1, fun g hg => (h g hg).2⟩⟩

/-- A deprecated array of a type defined later, an entry below zero, and struct fields that are an
entry and an array. -/
theorem ofBytes_modelled_iff_shapes :
    let bytes : List UInt8 :=
      [3, 77, 0, 2, 1, 120, 0, 4, 3, 7, 69, 0, 0, 1, 65, 0, 0, 0, 255, 255, 255, 255, 15,
        83, 0, 1, 2, 101, 0, 2, 0, 1, 121, 0, 9, 1, 2]
    let s : Schema := ⟨none, [⟨"M", .none, .message, [⟨"x", .none, some "S", true, true, 7⟩]⟩,
      ⟨"E", .none, .enum, [⟨"A", .none, none, false, false, -1⟩]⟩,
      ⟨"S", .none, .struct,
        [⟨"e", .none, some "E", false, false, 1⟩, ⟨"y", .none, some "float", true, false, 2⟩]⟩]⟩
    (ofBytes bytes).result = .ok s ∧ s.Sound ∧ s.Modelled := by
  intro bytes s
  have hs : (ofBinary bytes).result = .ok s := by decide +kernel
  have h : (ofBytes bytes).result = .ok s := Noted.result_mapError_eq_ok.mpr hs
  let raw : List RawDefinition :=
    [⟨"M", .message, [⟨"x", 2, 3, 7⟩]⟩, ⟨"E", .enum, [⟨"A", 0, 0, 4294967295⟩]⟩,
      ⟨"S", .struct, [⟨"e", 1, 0, 1⟩, ⟨"y", -5, 1, 2⟩]⟩]
  have hraw : Reads readDefinitions (.start bytes) raw ⟨37, []⟩ :=
    ⟨by decide +kernel, by decide +kernel⟩
  obtain ⟨hsound, _, _, hread, hiff⟩ := ofBytes_modelled_iff h
  obtain ⟨rfl, -⟩ := hread.unique hraw
  exact ⟨h, hsound, hiff.mpr (by decide)⟩

/-- A struct whose only field has the value 5 is read as it stands. -/
theorem ofBytes_modelled_misplaced :
    let bytes : List UInt8 := [1, 83, 0, 1, 1, 120, 0, 1, 0, 5]
    let s : Schema := ⟨none, [⟨"S", .none, .struct, [⟨"x", .none, some "bool", false, false, 5⟩]⟩]⟩
    (ofBytes bytes).result = .ok s ∧ ¬ s.Modelled := by
  intro bytes s
  have hs : (ofBinary bytes).result = .ok s := by decide +kernel
  refine ⟨Noted.result_mapError_eq_ok.mpr hs, fun h => ?_⟩
  have hvalue := h.value _ List.mem_cons_self rfl _ List.mem_cons_self
  exact absurd hvalue (by decide)

/-- An entry that is marked as an array is read as it stands too. -/
example : (ofBinary [1, 69, 0, 0, 1, 65, 0, 0, 1, 0]).result =
    .ok ⟨none, [⟨"E", .none, .enum, [⟨"A", .none, none, true, false, 0⟩]⟩]⟩ := by decide +kernel

end WireSchema.Schema
