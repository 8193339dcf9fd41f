import Mathlib.Algebra.Order.BigOperators.Group.List
import WireSchema.Proofs.Layout.Reading
import WireSchema.Proofs.Schema.Numbering

/-! What is read of a binary schema, from whatever bytes. Its names hold no zero and its fields have
passed their checks, so that it keeps to the data model once its struct fields are numbered; it
names no places in a text; and it has no more definitions, and these no more fields, than there are
bytes. -/

namespace WireSchema

/-- What is read so many times over takes as many bytes as each of its items takes at least. -/
theorem Reader.remaining_times {ε α : Type} {m : Reader ε α} {w : α → Nat}
    (h : ∀ {c a c'}, Reads m c a c' → c'.remaining + w a ≤ c.remaining) {n : Nat} {c c' : Cursor}
    {as : List α} (has : Reads (m.times n) c as c') :
    c'.remaining + (as.map w).sum ≤ c.remaining := by
  induction n generalizing c as with
  | zero =>
    obtain ⟨rfl, rfl⟩ := reads_pure.mp has
    exact Nat.le_refl _
  | succ n ih =>
    obtain ⟨a, c₁, ha, has⟩ := reads_bind.mp has
    obtain ⟨rest, c₂, hrest, has⟩ := reads_bind.mp has
    obtain ⟨rfl, rfl⟩ := reads_pure.mp has
    have hfirst := h ha
    have := ih hrest
    rw [List.map_cons, List.sum_cons]
    omega

namespace Schema

open Reader (Reads reads_bind reads_pure reads_mapError not_reads_fail)

variable {s : Schema} {kind : Kind} {names : List String} {bytes : List UInt8} {c c' : Cursor}

/-! ### Raw forms -/

/-- A definition as it can be read. -/
structure RawDefinition.Legible (d : RawDefinition) : Prop where
  name : Char.ofNat 0 ∉ d.name.toList
  fieldNames : ∀ f ∈ d.fields, Char.ofNat 0 ∉ f.name.toList
  checked : d.Checked

theorem of_reads_readField {f : RawField} (h : Reads (readField kind) c f c') :
    Char.ofNat 0 ∉ f.name.toList ∧ f.check kind = .ok () ∧ c'.remaining + 1 ≤ c.remaining := by
  obtain ⟨name, c₁, hname, h⟩ := reads_bind.mp h
  obtain ⟨typeId, c₂, htype, h⟩ := reads_bind.mp h
  obtain ⟨flags, c₃, hflags, h⟩ := reads_bind.mp h
  obtain ⟨value, c₄, hvalue, h⟩ := reads_bind.mp h
  dsimp only at h
  split at h
  · rename_i hcheck
    obtain ⟨rfl, rfl⟩ := reads_pure.mp h
    refine ⟨Reader.zero_notMem_of_reads_string (reads_mapError.mp hname), hcheck, ?_⟩
    have := Reader.delimited_string.remaining_le (reads_mapError.mp hname)
    have := Reader.delimited_int.remaining_le (reads_mapError.mp htype)
    have := Reader.delimited_byte.remaining_le (reads_mapError.mp hflags)
    have := Reader.delimited_uint.remaining_le (reads_mapError.mp hvalue)
    omega
  · exact absurd h not_reads_fail

theorem remaining_of_reads_readKind {name : String} (h : Reads (readKind name) c kind c') :
    c'.remaining ≤ c.remaining := by
  obtain ⟨byte, c₁, hbyte, h⟩ := reads_bind.mp h
  have := Reader.delimited_byte.remaining_le (reads_mapError.mp hbyte)
  split at h
  · exact absurd h not_reads_fail
  · obtain ⟨-, rfl⟩ := reads_pure.mp h
    omega

/-- A definition takes one byte, and one for each field. -/
theorem of_reads_readDefinition {d : RawDefinition} (h : Reads readDefinition c d c') :
    d.Legible ∧ c'.remaining + (d.fields.length + 1) ≤ c.remaining := by
  rw [readDefinition_eq] at h
  obtain ⟨name, c₁, hname, h⟩ := reads_bind.mp h
  obtain ⟨kind, c₂, hkind, h⟩ := reads_bind.mp h
  obtain ⟨fields, c₃, hcounted, h⟩ := reads_bind.mp h
  obtain ⟨rfl, rfl⟩ := reads_pure.mp h
  obtain ⟨count, c₄, hcount, hfields⟩ := reads_bind.mp hcounted
  obtain ⟨-, hall⟩ := Reader.reads_times hfields
  have hfield : ∀ f ∈ fields, Char.ofNat 0 ∉ f.name.toList ∧ f.check kind = .ok () := by
    intro f hf
    obtain ⟨_, _, hread⟩ := hall f hf
    obtain ⟨hzero, hcheck, -⟩ := of_reads_readField hread
    exact ⟨hzero, hcheck⟩
  refine ⟨⟨Reader.zero_notMem_of_reads_string (reads_mapError.mp hname),
    fun f hf => (hfield f hf).1, fun f hf => (hfield f hf).2⟩, ?_⟩
  have hwidth : c₃.remaining + fields.length ≤ c₄.remaining := by
    simpa using Reader.remaining_times (w := fun _ => 1)
      (fun hf => (of_reads_readField hf).2.2) hfields
  have := Reader.delimited_string.remaining_le (reads_mapError.mp hname)
  have := remaining_of_reads_readKind hkind
  have := Reader.delimited_uint.remaining_le (reads_mapError.mp hcount)
  dsimp only
  omega

theorem legible_of_reads {raw : List RawDefinition} (h : Reads readDefinitions c raw c') :
    ∀ d ∈ raw, d.Legible := by
  obtain ⟨count, c₁, hcount, hread⟩ := reads_bind.mp (reads_readDefinitions_iff.mp h).1
  intro d hd
  obtain ⟨_, _, hread⟩ := (Reader.reads_times hread).2 d hd
  exact (of_reads_readDefinition hread).1

/-! ### Fields and definitions with their types named -/

/-- A type is named but for an entry of an enum. -/
theorem RawField.exists_of_resolve {f : RawField} {g : Field} (h : f.resolve names kind = .ok g) :
    ∃ typeName : Option String, (typeName.isSome = true ↔ kind ≠ .enum) ∧
      ⟨f.name, .none, typeName, f.isArray, f.isDeprecated, f.value.toInt32⟩ = g := by
  by_cases hk : kind = .enum
  · subst hk
    exact ⟨none, by simp, Except.ok.inj (resolve_enum.symm.trans h)⟩
  · obtain ⟨name, -, hg⟩ := of_resolve hk h
    exact ⟨some name, by simpa using hk, hg⟩

/-- A field that was read keeps to the data model, once it is numbered. -/
theorem RawField.documented_numbered {f : RawField} {g : Field}
    (hname : Char.ofNat 0 ∉ f.name.toList) (hcheck : f.check kind = .ok ())
    (h : f.resolve names kind = .ok g) (place : Nat) :
    (g.numbered kind place).Documented kind place := by
  obtain ⟨typeName, htype, rfl⟩ := exists_of_resolve h
  refine ⟨hname, htype, (check_eq_ok_iff.mp hcheck).2.1, ?_⟩
  rintro rfl
  rfl

theorem RawDefinition.withoutPositions_of_resolve {d : RawDefinition} {g : Definition}
    (h : d.resolve names = .ok g) : g.withoutPositions = g := by
  obtain ⟨-, hposition, -, hfields⟩ := of_resolve h
  have hbare : ∀ f ∈ g.fields, f.withoutPosition = f := by
    intro f hf
    obtain ⟨r, -, hr⟩ := Except.exists_of_forall₂ hfields hf
    obtain ⟨_, -, rfl⟩ := RawField.exists_of_resolve hr
    rfl
  rw [Definition.withoutPositions, List.map_congr_left hbare, List.map_id', ← hposition]

theorem RawDefinition.Legible.documented_numbered {d : RawDefinition} {g : Definition}
    (hd : d.Legible) (h : d.resolve names = .ok g) : g.numbered.Documented := by
  obtain ⟨hname, -, hkind, hfields⟩ := of_resolve h
  constructor
  case name =>
    rw [Definition.name_numbered, hname]
    exact hd.name
  case fields =>
    rw [Definition.zipIdx_fields_numbered, List.forall_mem_map]
    rintro ⟨f, place⟩ hp
    have hf := List.mem_of_getElem? (List.mem_zipIdx_iff_getElem?.mp hp)
    obtain ⟨r, hr, hresolve⟩ := Except.exists_of_forall₂ hfields hf
    rw [Definition.kind_numbered, hkind]
    exact RawField.documented_numbered (hd.fieldNames r hr) (hd.checked r hr) hresolve place

/-! ### Schemas -/

/-- What a schema is like that was read from some bytes. -/
structure Decoded (bytes : List UInt8) (s : Schema) : Prop where
  package : s.package = none
  positions : s.withoutPositions = s
  documented : s.numbered.Documented
  length_le : s.definitions.length ≤ bytes.length
  length_fields_le : ∀ d ∈ s.definitions, d.fields.length ≤ bytes.length

theorem decoded_of_ofBinary (h : (ofBinary bytes).result = .ok s) : s.Decoded bytes := by
  obtain ⟨raw, c, hread, hresolve, hpackage⟩ := ofBinary_eq_ok.mp h
  have hlegible := legible_of_reads hread
  obtain ⟨count, c₁, hcount, hread⟩ := reads_bind.mp (reads_readDefinitions_iff.mp hread).1
  have hdefinitions := Except.mapM_eq_ok.mp hresolve
  have hwidth : c.remaining + (raw.map fun d => d.fields.length + 1).sum ≤ c₁.remaining :=
    Reader.remaining_times (fun hd => (of_reads_readDefinition hd).2) hread
  have hless : c₁.remaining + 1 ≤ bytes.length :=
    Reader.delimited_uint.remaining_le (reads_mapError.mp hcount)
  constructor
  case package => exact hpackage
  case positions =>
    have hbare : ∀ d ∈ s.definitions, d.withoutPositions = d := by
      intro d hd
      obtain ⟨r, -, hr⟩ := Except.exists_of_forall₂ hdefinitions hd
      exact RawDefinition.withoutPositions_of_resolve hr
    rw [withoutPositions, List.map_congr_left hbare, List.map_id']
  case documented =>
    refine forall_mem_numbered.mpr fun d hd => ?_
    obtain ⟨r, hr, hd⟩ := Except.exists_of_forall₂ hdefinitions hd
    exact (hlegible r hr).documented_numbered hd
  case length_le =>
    have := List.length_le_sum_of_one_le (raw.map fun d => d.fields.length + 1) (by simp)
    rw [List.length_map] at this
    rw [← hdefinitions.length_eq]
    omega
  case length_fields_le =>
    intro d hd
    obtain ⟨r, hr, hd⟩ := Except.exists_of_forall₂ hdefinitions hd
    rw [← (RawDefinition.of_resolve hd).2.2.2.length_eq]
    have := List.le_sum_of_mem
      (List.mem_map_of_mem (f := fun d : RawDefinition => d.fields.length + 1) hr)
    omega

end Schema

end WireSchema
