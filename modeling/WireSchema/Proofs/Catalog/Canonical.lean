import WireSchema.Proofs.Schema.Decoding
import WireSchema.Proofs.Schema.Printable

/-! Canonical forms of the binary schemas that are accepted. The canonical bytes are those that the
schema is written as again, whatever freedom the first bytes took; they stand for the same catalog
and are written as themselves. The canonical text stands for the same catalog where a text can say
the names and marks of the catalog at all. -/

namespace WireSchema

namespace Schema

variable {s : Schema} {c : Catalog} {bytes : List UInt8}

/-! ### Canonical bytes -/

/-- A schema that was read is of no text already. -/
theorem Decoded.numbered_eq (h : s.Decoded bytes) :
    { s.numbered.withoutPositions with package := none } = s.numbered := by
  rw [withoutPositions_numbered, h.positions, ← h.package]
  rfl

/-- The schema that was read, with its struct fields numbered, is what its bytes are read as. -/
theorem Decoded.exists_toBinary (h : s.Decoded bytes) (hsize : bytes.length < 2 ^ 31)
    (hc : s.compile.result = .ok c) :
    ∃ bytes', s.toBinary.result = .ok bytes' ∧ (ofBinary bytes').result = .ok s.numbered := by
  have hvalid := valid_of_check (compile_eq_ok_iff.mp (compile_numbered_iff.mpr hc)).1
  obtain ⟨bytes', hbytes⟩ := hvalid.exists_toBinary h.documented
  have hlength : s.numbered.definitions.length < 2 ^ 31 := by
    rw [length_definitions_numbered]
    exact h.length_le.trans_lt hsize
  have hfields : ∀ d ∈ s.numbered.definitions, d.fields.length < 2 ^ 31 := by
    refine forall_mem_numbered.mpr fun d hd => ?_
    rw [Definition.length_fields_numbered]
    exact (h.length_fields_le d hd).trans_lt hsize
  have hread := ofBinary_of_toBinary h.documented hlength hfields hbytes
  rw [h.numbered_eq] at hread
  rw [toBinary_numbered] at hbytes
  exact ⟨bytes', hbytes, hread⟩

/-! ### Canonical text -/

/-- What holds of the names and array marks of fields holds of those of the resolved fields. -/
theorem Definition.forall_mem_resolved (d : Definition) (p : String → Bool → Prop) :
    (∀ f ∈ (d.resolved s).fields, p f.name f.isArray) ↔ ∀ f ∈ d.fields, p f.name f.isArray := by
  have hplaces : (∀ q ∈ d.fields.zipIdx, p q.1.name q.1.isArray) ↔
      ∀ f ∈ d.fields, p f.name f.isArray := by
    rw [← List.forall_mem_map (f := Prod.fst) (P := fun f : Field => p f.name f.isArray),
      List.zipIdx_map_fst]
  rw [resolved, List.forall_mem_map]
  exact hplaces

end Schema

/-- A catalog that a text can say: its names are names, and no entry of an enum is marked as an
array. -/
def Catalog.Sayable (c : Catalog) : Prop :=
  ∀ d ∈ c.definitions, Token.isName d.name = true ∧
    ∀ f ∈ d.fields, Token.isName f.name = true ∧ (d.kind = .enum → f.isArray = false)

instance (c : Catalog) : Decidable c.Sayable :=
  inferInstanceAs (Decidable (∀ d ∈ c.definitions, Token.isName d.name = true ∧
    ∀ f ∈ d.fields, Token.isName f.name = true ∧ (d.kind = .enum → f.isArray = false)))

namespace Schema

variable {s : Schema} {c : Catalog} {bytes : List UInt8}

theorem sayable_iff_of_compile (hc : s.compile.result = .ok c) :
    c.Sayable ↔ ∀ d ∈ s.definitions, Token.isName d.name = true ∧
      ∀ f ∈ d.fields, Token.isName f.name = true ∧ (d.kind = .enum → f.isArray = false) := by
  obtain ⟨-, -, hdefinitions⟩ := compile_eq_ok_iff_valid.mp hc
  rw [Catalog.Sayable, ← hdefinitions, List.forall_mem_map]
  exact forall₂_congr fun d _ => and_congr_right fun _ =>
    d.forall_mem_resolved fun name isArray =>
      Token.isName name = true ∧ (d.kind = .enum → isArray = false)

theorem isName_of_isPrimitiveName {name : String} (h : TypeRef.isPrimitiveName name = true) :
    Token.isName name = true := by
  have hprimitives : ∀ p ∈ TypeRef.primitives, Token.isName p.1 = true := by decide
  obtain ⟨type, htype⟩ := Option.isSome_iff_exists.mp h
  exact hprimitives _ (Table.mem_of_get? htype)

theorem Definition.Printable.numbered {d : Definition} (h : d.Printable) :
    d.numbered.Printable := by
  refine ⟨h.name, List.forall_mem_map.mpr fun p hp => ?_⟩
  have hf := h.fields p.1 (List.mem_of_getElem? (List.mem_zipIdx_iff_getElem?.mp hp))
  exact ⟨hf.name, hf.typeName, hf.isArray⟩

theorem Decoded.typeName_of_enum (h : s.Decoded bytes) {d : Definition} (hd : d ∈ s.definitions)
    (hk : d.kind = .enum) {f : Field} (hf : f ∈ d.fields) : f.typeName = none := by
  have hdocumented := forall_mem_numbered.mp h.documented d hd
  rw [Definition.numbered_of_kind (by simp [hk])] at hdocumented
  obtain ⟨place, hplace⟩ := List.mem_iff_getElem?.mp hf
  have htype := (hdocumented.fields (f, place) (List.mem_zipIdx_iff_getElem?.mpr hplace)).typeName
  simpa [hk] using htype

/-- Types are named by primitives or definitions, so that their names are names if those of
definitions are. -/
theorem Decoded.printable (h : s.Decoded bytes) (hc : s.compile.result = .ok c) (hsay : c.Sayable) :
    s.Printable := by
  have hvalid := valid_of_check (compile_eq_ok_iff.mp hc).1
  have hsay := (sayable_iff_of_compile hc).mp hsay
  refine ⟨h.package, fun d hd => ⟨(hsay d hd).1, fun f hf => ?_⟩⟩
  obtain ⟨hname, harray⟩ := (hsay d hd).2 f hf
  refine ⟨hname, fun name htype => ?_, harray⟩
  by_cases hk : d.kind = .enum
  · rw [h.typeName_of_enum hd hk hf] at htype
    cases htype
  · obtain ⟨name', htype', hknown⟩ := hvalid.types d hd hk f hf
    obtain rfl := Option.some.inj (htype.symm.trans htype')
    rcases hknown with hprimitive | ⟨d', hd', rfl⟩
    · exact isName_of_isPrimitiveName hprimitive
    · exact (hsay d' hd').1

/-- The canonical text of what was read stands for the same catalog exactly if a text can say it. -/
theorem Decoded.compile_print_iff (h : s.Decoded bytes) (hc : s.compile.result = .ok c) :
    (∃ s', parse s.print = .ok s' ∧ s'.compile.result = .ok c) ↔ c.Sayable := by
  constructor
  · rintro ⟨s', hparse, hc'⟩
    refine (sayable_iff_of_compile hc').mpr fun d hd => ?_
    have hprintable := printable_of_parse hparse d hd
    exact ⟨hprintable.name,
      fun f hf => ⟨(hprintable.fields f hf).name, (hprintable.fields f hf).isArray⟩⟩
  · intro hsay
    have hprintable := h.printable hc hsay
    have hnumbered : s.numbered.Printable :=
      ⟨h.package, forall_mem_numbered.mpr fun d hd => (hprintable.definitions d hd).numbered⟩
    obtain ⟨s', hparse, hbare⟩ := exists_parse_print h.documented hnumbered
    rw [print_numbered] at hparse
    exact ⟨s', hparse, (compile_iff_of_withoutPositions hbare).mpr (compile_numbered_iff.mpr hc)⟩

end Schema

namespace Catalog

variable {c : Catalog} {bytes : List UInt8}

theorem ofBytes_eq_ok_iff : (ofBytes bytes).result = .ok c ↔
    ∃ s, (Schema.ofBinary bytes).result = .ok s ∧ s.compile.result = .ok c := by
  rw [ofBytes, Noted.result_bind_eq_ok]
  simp only [Schema.ofBytes, Schema.toCatalog, Noted.result_mapError_eq_ok]

theorem ofText_eq_ok_iff {text : String} : (ofText text).result = .ok c ↔
    ∃ s, Schema.parse text = .ok s ∧ s.compile.result = .ok c := by
  rw [ofText, Noted.result_bind_eq_ok]
  simp only [Schema.ofText, Schema.toCatalog, Noted.result_mapError_eq_ok, Noted.result_ofExcept,
    Except.mapError_eq_ok]

/-- Bytes that stand for a catalog have a canonical form: what is read of them is written again as
bytes that stand for the same catalog, and what is read of these is written as these. -/
theorem ofBytes_canonical (hsize : bytes.length < 2 ^ 31) (h : (ofBytes bytes).result = .ok c) :
    ∃ s bytes', (Schema.ofBytes bytes).result = .ok s ∧ s.toBytes.result = .ok bytes' ∧
      (ofBytes bytes').result = .ok c ∧
        ∃ s', (Schema.ofBytes bytes').result = .ok s' ∧ s'.toBytes.result = .ok bytes' := by
  obtain ⟨s, hs, hc⟩ := ofBytes_eq_ok_iff.mp h
  obtain ⟨bytes', hbytes, hread⟩ := (Schema.decoded_of_ofBinary hs).exists_toBinary hsize hc
  refine ⟨s, bytes', Noted.result_mapError_eq_ok.mpr hs, Noted.result_mapError_eq_ok.mpr hbytes,
    ofBytes_eq_ok_iff.mpr ⟨_, hread, Schema.compile_numbered_iff.mpr hc⟩,
    s.numbered, Noted.result_mapError_eq_ok.mpr hread, ?_⟩
  rw [Schema.toBytes, Schema.toBinary_numbered]
  exact Noted.result_mapError_eq_ok.mpr hbytes

/-- An overlong count, a name that is no UTF-8, an overlong type with a place of its own, and an
entry with a type and the mark of an array. -/
theorem ofBytes_canonical_loose :
    let bytes : List UInt8 := [130, 0, 255, 0, 1, 1, 120, 0, 129, 0, 0, 200, 1,
      69, 0, 0, 1, 65, 0, 10, 1, 255, 255, 255, 255, 15]
    let c : Catalog := ⟨[⟨"\ufffd", .struct, [⟨"x", .bool, false, false, 1⟩]⟩,
      ⟨"E", .enum, [⟨"A", .uint, true, false, 4294967295⟩]⟩]⟩
    (ofBytes bytes).result = .ok c ∧ ∃ s bytes', (Schema.ofBytes bytes).result = .ok s ∧
      s.toBytes.result = .ok bytes' ∧ (ofBytes bytes').result = .ok c ∧
        ∃ s', (Schema.ofBytes bytes').result = .ok s' ∧ s'.toBytes.result = .ok bytes' := by
  intro bytes c
  let s : Schema :=
    ⟨none, [⟨"\ufffd", .none, .struct, [⟨"x", .none, some "bool", false, false, 200⟩]⟩,
      ⟨"E", .none, .enum, [⟨"A", .none, none, true, false, -1⟩]⟩]⟩
  have hread : (Schema.ofBinary bytes).result = .ok s := by decide +kernel
  have hcompile : s.compile.result = .ok c := by decide +kernel
  have h : (ofBytes bytes).result = .ok c := ofBytes_eq_ok_iff.mpr ⟨s, hread, hcompile⟩
  exact ⟨h, ofBytes_canonical (by decide) h⟩

/-- Bytes that stand for a catalog have a canonical text, which stands for the same catalog exactly
if a text can say its names and its marks of arrays. -/
theorem ofText_print_iff (h : (ofBytes bytes).result = .ok c) :
    ∃ s, (Schema.ofBytes bytes).result = .ok s ∧ ((ofText s.print).result = .ok c ↔ c.Sayable) := by
  obtain ⟨s, hs, hc⟩ := ofBytes_eq_ok_iff.mp h
  refine ⟨s, Noted.result_mapError_eq_ok.mpr hs, ?_⟩
  rw [ofText_eq_ok_iff]
  exact (Schema.decoded_of_ofBinary hs).compile_print_iff hc

/-- A type defined later, a deprecated array and an entry below zero. -/
theorem ofText_print_negative :
    let bytes : List UInt8 :=
      [2, 83, 104, 97, 112, 101, 0, 2, 1, 115, 105, 100, 101, 115, 0, 2, 3, 1,
        83, 105, 100, 101, 0, 0, 1, 78, 79, 78, 69, 0, 0, 0, 255, 255, 255, 255, 15]
    let c : Catalog := ⟨[⟨"Shape", .message, [⟨"sides", .definition 1, true, true, 1⟩]⟩,
      ⟨"Side", .enum, [⟨"NONE", .uint, false, false, 4294967295⟩]⟩]⟩
    (ofBytes bytes).result = .ok c ∧ c.Sayable ∧
      ∃ s, (Schema.ofBytes bytes).result = .ok s ∧ (ofText s.print).result = .ok c := by
  intro bytes c
  let s : Schema :=
    ⟨none, [⟨"Shape", .none, .message, [⟨"sides", .none, some "Side", true, true, 1⟩]⟩,
      ⟨"Side", .none, .enum, [⟨"NONE", .none, none, false, false, -1⟩]⟩]⟩
  have hread : (Schema.ofBinary bytes).result = .ok s := by decide +kernel
  have hcompile : s.compile.result = .ok c := by decide +kernel
  have h : (ofBytes bytes).result = .ok c := ofBytes_eq_ok_iff.mpr ⟨s, hread, hcompile⟩
  have hsay : c.Sayable := by decide
  obtain ⟨s', hs', hprint⟩ := ofText_print_iff h
  exact ⟨h, hsay, s', hs', hprint.mpr hsay⟩

/-- A struct with a blank in its name is accepted, and its canonical text is no schema. -/
theorem ofText_print_blank :
    let bytes : List UInt8 := [1, 97, 32, 98, 0, 1, 0]
    (ofBytes bytes).result = .ok ⟨[⟨"a b", .struct, []⟩]⟩ ∧
      ∃ s, (Schema.ofBytes bytes).result = .ok s ∧ s.print = "struct a b \x7b\n\x7d\n" ∧
        ∀ c, (ofText s.print).result ≠ .ok c := by
  intro bytes
  let s : Schema := ⟨none, [⟨"a b", .none, .struct, []⟩]⟩
  have hread : (Schema.ofBinary bytes).result = .ok s := by decide +kernel
  have hcompile : s.compile.result = .ok ⟨[⟨"a b", .struct, []⟩]⟩ := by decide +kernel
  have hprint : s.print = "struct a b \x7b\n\x7d\n" := by decide +kernel
  have hparse : (Schema.parse s.print).toOption = none := by decide +kernel
  refine ⟨ofBytes_eq_ok_iff.mpr ⟨s, hread, hcompile⟩, s, Noted.result_mapError_eq_ok.mpr hread,
    hprint, fun c h => ?_⟩
  obtain ⟨s', hs', -⟩ := ofText_eq_ok_iff.mp h
  rw [hs'] at hparse
  cases hparse

/-- An entry of an enum with the mark of an array is accepted, and no text can say it. -/
example : ¬ Sayable ⟨[⟨"E", .enum, [⟨"A", .uint, true, false, 0⟩]⟩]⟩ := by decide

end Catalog

end WireSchema
