import Mathlib.Logic.Relation
import WireSchema.Proofs.Catalog.Closed
import WireSchema.Proofs.Catalog.Compile
import WireSchema.Proofs.Value.RoundTrip

/-! What compiling establishes, and what writing and reading rely on without another look: the
definitions of the schema in order with every type resolved, look-ups by name and by value that are
exact, and no struct inside itself. -/

namespace WireSchema

namespace Catalog

/-- What becomes of the type of a field: an unsigned number where none is named, else the primitive
of that name, or else the place of a definition of that name. -/
inductive Resolves (c : Catalog) : Option String → TypeRef → Prop
  | untyped : Resolves c none .uint
  | primitive {name : String} {type : TypeRef} (h : TypeRef.ofName? name = some type) :
      Resolves c (some name) type
  | definition {index : Nat} {d : Definition} (h : TypeRef.ofName? d.name = none)
      (hd : c.definitions[index]? = some d) : Resolves c (some d.name) (.definition index)

theorem Resolves.exists_definition {c : Catalog} {typeName : Option String} {index : Nat}
    (h : c.Resolves typeName (.definition index)) :
    ∃ d, c.definitions[index]? = some d ∧ typeName = some d.name := by
  cases h with
  | primitive hprimitive => exact absurd hprimitive TypeRef.ofName?_ne_definition
  | definition _ hd => exact ⟨_, hd, rfl⟩

theorem Resolves.eq_primitive {c : Catalog} {name : String} {type primitive : TypeRef}
    (h : c.Resolves (some name) type) (hname : TypeRef.ofName? name = some primitive) :
    type = primitive := by
  cases h with
  | primitive h => exact Option.some.inj (h.symm.trans hname)
  | definition h _ => exact absurd (h.symm.trans hname) (by simp)

structure RendersField (c : Catalog) (f : Schema.Field) (g : Field) : Prop where
  name : g.name = f.name
  type : c.Resolves f.typeName g.type
  isArray : g.isArray = f.isArray
  isDeprecated : g.isDeprecated = f.isDeprecated

structure Renders (c : Catalog) (d : Schema.Definition) (d' : Definition) : Prop where
  name : d'.name = d.name
  kind : d'.kind = d.kind
  fields : List.Forall₂ c.RendersField d.fields d'.fields
  values : d.kind ≠ .struct → d'.fields.map (·.value) = d.fields.map (·.value.toUInt32)

/-- The indexes of a definition, by which its fields are looked up, and their listings as tables. -/
structure Definition.Indexed (d : Definition) : Prop where
  names : Indexes d.indexOfName? (·.name) d.fields
  values : Indexes d.indexOfValue? (·.value) d.fields
  namesTable : Indexes (Table.get? · d.names) (·.name) d.fields
  valuesTable : Indexes (Table.get? · d.values) (·.value) d.fields

/-- The struct at one place has a field, no array, of the type at another place. -/
def Contains (c : Catalog) (i j : Nat) : Prop :=
  ∃ d, c.definitions[i]? = some d ∧ d.kind = .struct ∧
    ∃ f ∈ d.fields, f.isArray = false ∧ f.type = .definition j

structure Represents (c : Catalog) (s : Schema) : Prop where
  definitions : List.Forall₂ c.Renders s.definitions c.definitions
  names : Indexes c.indexOf? (·.name) c.definitions
  namesTable : Indexes (Table.get? · c.names) (·.name) c.definitions
  fields : ∀ d ∈ c.definitions, d.Indexed
  ids : ∀ d ∈ c.definitions, d.kind = .message →
    ∀ f ∈ d.fields, 1 ≤ f.value.toNat ∧ f.value.toNat ≤ 2 ^ 31 - 1
  places : ∀ d ∈ c.definitions, d.kind = .struct →
    d.fields.map (·.value.toNat) = List.range' 1 d.fields.length
  acyclic : ∀ index, ¬ Relation.TransGen c.Contains index index

/-- The two tables of an enum: what its entries are written as, and what its values are read as. -/
structure EnumTables (c : Catalog) (d : Definition) (values : List (String × UInt32))
    (names : List (UInt32 × String)) : Prop where
  values_eq : c.enumValues? d.name = some values
  names_eq : c.enumNames? d.name = some names
  entries : ∀ entry value,
    Table.get? entry values = some value ↔ ∃ f ∈ d.fields, f.name = entry ∧ f.value = value
  inverse : ∀ entry value, Table.get? entry values = some value ↔
    Table.get? value names = some entry
  encode : ∀ v bytes, (c.encode d.name v).result = .ok bytes ↔
    ∃ entry value, Table.get? entry values = some value ∧ v = .enum d.name entry ∧
      bytes = Wire.uint value
  decode : ∀ bytes v, (c.decode d.name bytes).result = .ok v ↔
    ∃ value entry, Table.get? value names = some entry ∧ v = .enum d.name entry ∧
      ∃ cursor, Reader.Reads Reader.uint (Cursor.start bytes) value cursor ∧ cursor.remaining = 0

end Catalog

namespace Schema

open Catalog (Resolves RendersField Renders Represents)

variable {s : Schema} {c : Catalog} {d : Definition} {d' : Catalog.Definition}

theorem resolves_of_typeOf? (hnames : c.definitions.map (·.name) = s.definitions.map (·.name))
    {name : String} {type : TypeRef} (h : s.typeOf? name = some type) :
    c.Resolves (some name) type := by
  rcases TypeRef.eq_some_of_orElse h with hprimitive | ⟨hnone, index, hindex, rfl⟩
  · exact .primitive hprimitive
  · have hplace := name_of_indexOf? hindex
    rw [← hnames, List.getElem?_map] at hplace
    obtain ⟨d', hd', rfl⟩ := Option.map_eq_some_iff.mp hplace
    exact .definition hnone hd'

theorem rendersField_of_compile (hnames : c.definitions.map (·.name) = s.definitions.map (·.name))
    {kind : Kind} {f : Field} {place : Nat} {g : Catalog.Field}
    (h : f.compile s kind place = .ok g) : c.RendersField f g := by
  obtain ⟨type, htype, rfl⟩ := Field.of_compile h
  refine ⟨rfl, ?_, rfl, rfl⟩
  rcases htype with ⟨hnone, rfl⟩ | ⟨name, hname, htype⟩
  · rw [hnone]
    exact .untyped
  · rw [hname]
    exact resolves_of_typeOf? hnames htype

theorem renders_of_compile (hnames : c.definitions.map (·.name) = s.definitions.map (·.name))
    (h : d.compile s = .ok d') : c.Renders d d' := by
  obtain ⟨hname, hkind, hfields⟩ := Definition.of_compile h
  refine ⟨hname, hkind, ?_,
    fun hk => Definition.map_of_compile h fun hf => Field.value_of_compile hf hk⟩
  have hrenders : List.Forall₂ (fun p g => c.RendersField p.1 g) d.fields.zipIdx d'.fields :=
    hfields.imp fun p g hg => rendersField_of_compile hnames hg
  rwa [← List.forall₂_map_left_iff, List.zipIdx_map_fst] at hrenders

/-- The fields of a struct are numbered from 1. -/
theorem places_of_compile (hd : d.fields.length < 2 ^ 31) (hk : d.kind = .struct)
    (h : d.compile s = .ok d') :
    d'.fields.map (·.value.toNat) = List.range' 1 d'.fields.length := by
  obtain ⟨-, -, hfields⟩ := Definition.of_compile h
  have hvalue : d'.fields.map (·.value.toNat) =
      d.fields.zipIdx.map fun p => (p.2 + 1) % 2 ^ 32 := by
    refine Except.map_eq_of_forall₂ hfields fun hg => ?_
    obtain ⟨_, -, rfl⟩ := Field.of_compile hg
    rw [if_pos hk]
    exact UInt32.toNat_ofNat'
  have hplace : ∀ p ∈ d.fields.zipIdx, (p.2 + 1) % 2 ^ 32 = 1 + p.2 := by
    intro p hp
    have := (List.getElem?_eq_some_iff.mp (List.mem_zipIdx_iff_getElem?.mp hp)).1
    omega
  have hlength : d'.fields.length = d.fields.length := by
    rw [← hfields.length_eq, List.length_zipIdx]
  calc d'.fields.map (·.value.toNat)
      = d.fields.zipIdx.map fun p => 1 + p.2 := by rw [hvalue, List.map_congr_left hplace]
    _ = (d.fields.zipIdx.map Prod.snd).map (1 + ·) := by rw [List.map_map]; rfl
    _ = List.range' 1 d'.fields.length := by
      rw [List.zipIdx_map_snd, List.map_add_range', hlength]

/-- What a struct of the catalog contains, the struct of the schema contains by name. -/
theorem contains_of_compile (h : s.compile.result = .ok c) {i j : Nat} (hij : c.Contains i j) :
    s.Contains ((c.definitions.map (·.name)).getD i "")
      ((c.definitions.map (·.name)).getD j "") := by
  have hnodup := (valid_of_compile h).names
  have hnames := names_of_compile h
  obtain ⟨d', hd', hkind, g, hg, harray, htype⟩ := hij
  obtain ⟨d, hd, hcompile⟩ := exists_of_mem_compile h (List.mem_of_getElem? hd')
  have hrenders := renders_of_compile hnames hcompile
  obtain ⟨f, hf, hfield⟩ := Except.exists_of_forall₂ hrenders.fields hg
  rw [hnames] at hnodup
  refine (contains_iff hnodup).mpr ⟨d, hd, hrenders.kind.symm.trans hkind, ?_, f, hf,
    hfield.isArray.symm.trans harray, ?_⟩
  · rw [List.getD_eq_getElem?_getD, List.getElem?_map, hd']
    exact hrenders.name.symm
  · obtain ⟨d₂, hd₂, hname⟩ := (htype ▸ hfield.type).exists_definition
    rw [List.getD_eq_getElem?_getD, List.getElem?_map, hd₂, hname]
    rfl

theorem acyclic_of_compile (h : s.compile.result = .ok c) (index : Nat) :
    ¬ Relation.TransGen c.Contains index index := by
  intro hcycle
  have hcontainment := (check_eq_ok_iff.mp (compile_eq_ok_iff.mp h).1).2.2
  have hlift := Relation.TransGen.lift (fun i => (c.definitions.map (·.name)).getD i "")
    (fun i j => contains_of_compile h) index index hcycle
  exact checkContainment_eq_ok_iff.mp hcontainment _ hlift

theorem indexed_of_compile (h : s.compile.result = .ok c)
    (hs : ∀ d ∈ s.definitions, d.fields.length < 2 ^ 31) {d' : Catalog.Definition}
    (hd : d' ∈ c.definitions) : d'.Indexed := by
  have hvalid := valid_of_compile h
  have hnames := hvalid.fieldNames d' hd
  have hvalues : (d'.fields.map (·.value)).Nodup := by
    obtain ⟨d, hd₀, hcompile⟩ := exists_of_mem_compile h hd
    by_cases hk : d'.kind = .struct
    · have hplaces :=
        places_of_compile (hs d hd₀) ((Definition.of_compile hcompile).2.1.symm.trans hk) hcompile
      have hnodup : (d'.fields.map (·.value.toNat)).Nodup := hplaces ▸ List.nodup_range'
      refine List.Nodup.of_map UInt32.toNat ?_
      rwa [List.map_map]
    · exact hvalid.values d' hd hk
  exact ⟨indexes_lastIndex? hnames, indexes_lastIndex? hvalues, indexes_ofPairs hnames,
    indexes_ofPairs hvalues⟩

theorem closed_of_compile (h : s.compile.result = .ok c) : c.Closed := by
  rintro d' hd g hg index hindex
  obtain ⟨d, -, hcompile⟩ := exists_of_mem_compile h hd
  obtain ⟨f, -, hfield⟩ :=
    Except.exists_of_forall₂ (renders_of_compile (names_of_compile h) hcompile).fields hg
  obtain ⟨d₂, hd₂, -⟩ := (hindex ▸ hfield.type).exists_definition
  exact (List.getElem?_eq_some_iff.mp hd₂).1

theorem represents_of_compile (h : s.compile.result = .ok c)
    (hs : ∀ d ∈ s.definitions, d.fields.length < 2 ^ 31) : c.Represents s where
  definitions := (compile_eq_ok_iff.mp h).2.imp fun d d' hd =>
    renders_of_compile (names_of_compile h) hd
  names := indexes_lastIndex? (valid_of_compile h).names
  namesTable := indexes_ofPairs (valid_of_compile h).names
  fields d' hd := indexed_of_compile h hs hd
  ids d' hd hk := by
    obtain ⟨d, hd₀, hcompile⟩ := exists_of_mem_compile h hd
    have hkind : d.kind = .message := (Definition.of_compile hcompile).2.1.symm.trans hk
    have hids := ((valid_of_check (compile_eq_ok_iff.mp h).1).ids d hd₀ hkind).1
    exact ids_of_compile hids (by rw [hkind]; decide) hcompile
  places d' hd hk := by
    obtain ⟨d, hd₀, hcompile⟩ := exists_of_mem_compile h hd
    exact places_of_compile (hs d hd₀) ((Definition.of_compile hcompile).2.1.symm.trans hk) hcompile
  acyclic := acyclic_of_compile h

end Schema

/-! ### Enums -/

namespace Catalog

variable {c : Catalog} {d : Definition}

theorem Valid.field?_eq_some_iff (hc : c.Valid) (hd : d ∈ c.definitions) {f : Field}
    {entry : String} : d.field? entry = some f ↔ f ∈ d.fields ∧ f.name = entry := by
  constructor
  · exact Definition.of_field?
  · rintro ⟨hf, rfl⟩
    exact hc.field?_name hd hf

theorem Valid.fieldOfValue?_eq_some_iff (hc : c.Valid) (hd : d ∈ c.definitions)
    (hk : d.kind ≠ .struct) {f : Field} {value : UInt32} :
    d.fieldOfValue? value = some f ↔ f ∈ d.fields ∧ f.value = value :=
  Definition.fieldOfValue?_eq_some_iff (hc.values d hd hk)

/-- An entry is written as its value, and nothing else is written as an enum. -/
theorem encodeAs_enum_iff {index : Nat} (hd : c.definitions[index]? = some d)
    (hk : d.kind = .enum) {v : Value} {bytes : List UInt8} :
    (c.encodeAs (.definition index) v).result = .ok bytes ↔
      ∃ entry f, d.field? entry = some f ∧ v = .enum d.name entry ∧ bytes = Wire.uint f.value := by
  rw [encodeAs_eq_ok_iff]
  have hwritten : ∀ {entry f}, d.field? entry = some f →
      (c.write (.enum d.name entry) (.one (.definition index))).written = Wire.uint f.value := by
    intro entry f hf
    simp [write, hd, hk, writeEntry, hf]
  constructor
  · rintro ⟨hconforms, rfl⟩
    cases hconforms with
    | @enum _ d' f entry hd' _ hf =>
      obtain rfl := Option.some.inj (hd'.symm.trans hd)
      exact ⟨entry, f, hf, rfl, hwritten hf⟩
    | struct hd' hk' => simp_all
    | message hd' hk' => simp_all
  · rintro ⟨entry, f, hf, rfl, rfl⟩
    exact ⟨.enum hd hk hf, hwritten hf⟩

theorem decodeAs_enum_iff {index : Nat} (hd : c.definitions[index]? = some d)
    (hk : d.kind = .enum) {v : Value} {bytes : List UInt8} :
    (c.decodeAs (.definition index) bytes).result = .ok v ↔
      ∃ value f, d.fieldOfValue? value = some f ∧ v = .enum d.name f.name ∧
        ∃ cursor, Reader.Reads Reader.uint (Cursor.start bytes) value cursor ∧
          cursor.remaining = 0 := by
  rw [decodeAs_eq_ok_iff, readValue, readWithin_enum hd hk]
  constructor
  · rintro ⟨cursor, hread, hend⟩
    obtain ⟨value, cursor', hvalue, hread⟩ := Reader.reads_bind.mp hread
    cases hf : d.fieldOfValue? value with
    | none => simp [hf] at hread
    | some f =>
      simp only [hf] at hread
      obtain ⟨rfl, rfl⟩ := Reader.reads_pure.mp hread
      exact ⟨value, f, hf, rfl, _, Reader.reads_mapError.mp hvalue, hend⟩
  · rintro ⟨value, f, hf, rfl, cursor, hvalue, hend⟩
    refine ⟨cursor, Reader.reads_bind.mpr ⟨value, cursor, Reader.reads_mapError.mpr hvalue, ?_⟩,
      hend⟩
    simp [hf]

theorem Valid.enumTables (hc : c.Valid) {index : Nat} (hd : c.definitions[index]? = some d)
    (hk : d.kind = .enum) (hfree : TypeRef.ofName? d.name = none) : c.EnumTables d
      (Table.ofPairs (d.fields.map fun f => (f.name, f.value)))
      (Table.ofPairs (d.fields.map fun f => (f.value, f.name))) := by
  have hmem := List.mem_of_getElem? hd
  have hstruct : d.kind ≠ .struct := by simp [hk]
  have hlookup := hc.definition?_name hmem
  have htype : c.typeOf? d.name = some (.definition index) := by
    have hindex := (indexes_lastIndex? hc.names).find_eq_some_iff.mpr ⟨d, hd, rfl⟩
    rw [typeOf?, hfree, indexOf?, hindex]
    rfl
  have hvalue : ∀ entry value,
      Table.get? entry (Table.ofPairs (d.fields.map fun f => (f.name, f.value))) = some value ↔
        ∃ f ∈ d.fields, f.name = entry ∧ f.value = value :=
    fun entry value => Table.get?_ofPairs_map_iff (hc.fieldNames d hmem)
  have hname : ∀ value entry,
      Table.get? value (Table.ofPairs (d.fields.map fun f => (f.value, f.name))) = some entry ↔
        ∃ f ∈ d.fields, f.value = value ∧ f.name = entry :=
    fun value entry => Table.get?_ofPairs_map_iff (hc.values d hmem hstruct)
  refine ⟨?_, ?_, hvalue, fun entry value => ?_, fun v bytes => ?_, fun bytes v => ?_⟩
  · rw [enumValues?, hlookup]
    obtain ⟨name, kind, fields⟩ := d
    obtain rfl : kind = .enum := hk
    rfl
  · rw [enumNames?, hlookup]
    obtain ⟨name, kind, fields⟩ := d
    obtain rfl : kind = .enum := hk
    rfl
  · rw [hvalue, hname]
    simp only [and_comm]
  · rw [Catalog.encode, htype]
    simp only [encodeAs_enum_iff hd hk, hvalue, hc.field?_eq_some_iff hmem]
    constructor
    · rintro ⟨entry, f, hf, rfl, rfl⟩
      exact ⟨entry, f.value, ⟨f, hf.1, hf.2, rfl⟩, rfl, rfl⟩
    · rintro ⟨entry, _, ⟨f, hf, hentry, rfl⟩, rfl, rfl⟩
      exact ⟨entry, f, ⟨hf, hentry⟩, rfl, rfl⟩
  · rw [Catalog.decode, htype]
    simp only [decodeAs_enum_iff hd hk, hname, hc.fieldOfValue?_eq_some_iff hmem hstruct]
    constructor
    · rintro ⟨value, f, hf, rfl, hread⟩
      exact ⟨value, f.name, ⟨f, hf.1, hf.2, rfl⟩, rfl, hread⟩
    · rintro ⟨value, _, ⟨f, hf, hvalue, rfl⟩, rfl, hread⟩
      exact ⟨value, f, ⟨hf, hvalue⟩, rfl, hread⟩

end Catalog

namespace Schema

variable {s : Schema} {c : Catalog}

theorem enumTables_of_compile (h : s.compile.result = .ok c) {d' : Catalog.Definition}
    (hd : d' ∈ c.definitions) (hk : d'.kind = .enum) :
    ∃ values names, c.EnumTables d' values names := by
  obtain ⟨index, hindex⟩ := List.mem_iff_getElem?.mp hd
  obtain ⟨d, hd₀, hcompile⟩ := exists_of_mem_compile h hd
  have hfree : TypeRef.ofName? d'.name = none := by
    have hprimitive := ((valid_of_check (compile_eq_ok_iff.mp h).1).free d hd₀).1
    rw [(Definition.of_compile hcompile).1]
    simpa [TypeRef.isPrimitiveName] using hprimitive
  exact ⟨_, _, (valid_of_compile h).enumTables hindex hk hfree⟩

end Schema

end WireSchema
