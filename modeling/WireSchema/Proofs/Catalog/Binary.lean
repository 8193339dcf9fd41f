import WireSchema.Attempt
import WireSchema.Proofs.Catalog.Compile
import WireSchema.Proofs.Schema.Binary
import WireSchema.Proofs.Schema.Valid

/-! Compiling through the binary form. What is valid and what is compiled does not depend on places
in a text or on the package, which the binary form leaves out; and what can be compiled has a binary
form. -/

namespace WireSchema

namespace Schema

variable {s s' : Schema} {c : Catalog}

/-! ### Schemas of no text -/

theorem embeds_iff_of_definitions
    (hs : s'.definitions = s.definitions.map Definition.withoutPositions)
    {a b : String} : s'.Embeds a b ↔ s.Embeds a b := by
  simp [Embeds, hs, Definition.withoutPositions, Field.withoutPosition]

theorem valid_iff_of_definitions
    (hs : s'.definitions = s.definitions.map Definition.withoutPositions) : s'.Valid ↔ s.Valid := by
  have hembeds : s'.Embeds = s.Embeds := by
    ext a b
    exact embeds_iff_of_definitions hs
  rw [valid_iff, valid_iff, hembeds]
  simp [hs, Definition.withoutPositions, Field.withoutPosition, Function.comp_def]

theorem typeOf?_of_definitions (hs : s'.definitions = s.definitions.map Definition.withoutPositions)
    (name : String) : s'.typeOf? name = s.typeOf? name := by
  rw [typeOf?, typeOf?, indexOf?, indexOf?, hs, lastIndex?_map]
  rfl

theorem Field.compile_withoutPosition
    (hs : s'.definitions = s.definitions.map Definition.withoutPositions) (kind : Kind) (f : Field)
    (place : Nat) : f.withoutPosition.compile s' kind place = f.compile s kind place := by
  unfold compile withoutPosition
  simp only [typeOf?_of_definitions hs]

theorem Definition.compile_withoutPositions
    (hs : s'.definitions = s.definitions.map Definition.withoutPositions) (d : Definition) :
    d.withoutPositions.compile s' = d.compile s := by
  unfold compile withoutPositions
  rw [List.zipIdx_map, List.mapM_map]
  simp only [Function.comp_def, Prod.map, Field.compile_withoutPosition hs, id]

/-- Places and packages are not compiled. -/
theorem compile_iff_of_definitions
    (hs : s'.definitions = s.definitions.map Definition.withoutPositions) :
    s'.compile.result = .ok c ↔ s.compile.result = .ok c := by
  have hcheck : s'.check = .ok () ↔ s.check = .ok () := by
    constructor
    · exact fun h => ((valid_iff_of_definitions hs).mp (valid_of_check h)).check_eq_ok
    · exact fun h => ((valid_iff_of_definitions hs).mpr (valid_of_check h)).check_eq_ok
  rw [compile_eq_ok_iff, compile_eq_ok_iff, hcheck, hs, List.forall₂_map_left_iff]
  simp only [Definition.compile_withoutPositions hs]

theorem compile_withoutPositions_iff : s.withoutPositions.compile.result = .ok c ↔
    s.compile.result = .ok c :=
  compile_iff_of_definitions rfl

/-! ### Both ways to a catalog -/

/-- A schema of the data model has a binary form if it is valid. -/
theorem Valid.exists_toBinary (hvalid : s.Valid) (hs : s.Documented) :
    ∃ bytes, s.toBinary.result = .ok bytes := by
  refine ⟨_, toBinary_eq_ok.mpr ⟨fun d hd => Definition.succeeds_write_iff.mpr fun p hp => ?_, rfl⟩⟩
  obtain ⟨f, place⟩ := p
  have hf := List.mem_of_getElem? (List.mem_zipIdx_iff_getElem?.mp hp)
  refine Field.succeeds_write_iff.mpr ⟨fun name hname => ?_, fun hkind => ?_⟩
  · have hkind : d.kind ≠ .enum := ((hs d hd).fields _ hp).typeName.mp (by rw [hname]; rfl)
    obtain ⟨name', hname', htype⟩ := hvalid.types d hd hkind f hf
    obtain rfl := Option.some.inj (hname.symm.trans hname')
    exact isSome_typeOf?_iff.mpr htype
  · exact Int.le_of_lt ((hvalid.ids d hd hkind).1 f hf)

/-- A schema that was parsed is compiled to a catalog exactly if it has a binary form that is
compiled to the same catalog. -/
theorem toCatalog_eq_ok_iff {text : String} (h : (ofText text).result = .ok s)
    (hsize : s.definitions.length < 2 ^ 31)
    (hfields : ∀ d ∈ s.definitions, d.fields.length < 2 ^ 31)
    (c : Catalog) : s.toCatalog.result = .ok c ↔
      ∃ bytes, s.toBytes.result = .ok bytes ∧ (Catalog.ofBytes bytes).result = .ok c := by
  have hdocumented := documented_of_parse (Except.mapError_eq_ok.mp h)
  have hbinary : ∀ {bytes}, s.toBinary.result = .ok bytes →
      ((Catalog.ofBytes bytes).result = .ok c ↔ s.compile.result = .ok c) := by
    intro bytes hbytes
    have hread := ofBinary_of_toBinary hdocumented hsize hfields hbytes
    have hcompile : { s.withoutPositions with package := none }.compile.result = .ok c ↔
        s.compile.result = .ok c :=
      compile_iff_of_definitions rfl
    rw [Catalog.ofBytes, Noted.result_bind_eq_ok]
    simp only [ofBytes, toCatalog, Noted.result_mapError_eq_ok, hread, Except.ok.injEq,
      exists_eq_left', hcompile]
  simp only [toCatalog, toBytes, Noted.result_mapError_eq_ok]
  constructor
  · intro hcompile
    have hvalid := valid_of_check (compile_eq_ok_iff.mp hcompile).1
    obtain ⟨bytes, hbytes⟩ := hvalid.exists_toBinary hdocumented
    exact ⟨bytes, hbytes, (hbinary hbytes).mpr hcompile⟩
  · rintro ⟨bytes, hbytes, hcompile⟩
    exact (hbinary hbytes).mp hcompile

/-- A package, a type defined later, a deprecated array and an entry below zero. -/
theorem toCatalog_eq_ok_iff_packaged :
    let text :=
      "package shapes; message Shape { Side[] sides = 1 [deprecated]; } enum Side { NONE = -1; }"
    let s : Schema := ⟨some "shapes", [
      ⟨"Shape", ⟨1, 25⟩, .message, [⟨"sides", ⟨1, 40⟩, some "Side", true, true, 1⟩]⟩,
      ⟨"Side", ⟨1, 71⟩, .enum, [⟨"NONE", ⟨1, 78⟩, none, false, false, -1⟩]⟩]⟩
    let c : Catalog := ⟨[⟨"Shape", .message, [⟨"sides", .definition 1, true, true, 1⟩]⟩,
      ⟨"Side", .enum, [⟨"NONE", .uint, false, false, 4294967295⟩]⟩]⟩
    (ofText text).result = .ok s ∧ s.toCatalog.result = .ok c ∧
      ∃ bytes, s.toBytes.result = .ok bytes ∧ (Catalog.ofBytes bytes).result = .ok c := by
  intro text s c
  have hparse : parse text = .ok s := by decide +kernel
  have hcompile : s.compile.result = .ok c := by decide +kernel
  have htext : (ofText text).result = .ok s := Except.mapError_eq_ok.mpr hparse
  have hcatalog : s.toCatalog.result = .ok c := Noted.result_mapError_eq_ok.mpr hcompile
  exact ⟨htext, hcatalog, (toCatalog_eq_ok_iff htext (by decide) (by decide) c).mp hcatalog⟩

end Schema

end WireSchema
