import WireSchema.Proofs.Catalog.Relocation
import WireSchema.Proofs.Catalog.Representation

/-! What compiling makes of a schema, definition by definition and without a step that can fail; and
of two schemas of which one has the definitions of the other at other places. -/

namespace WireSchema.Schema

variable {σ : Nat → Nat} {s s' : Schema} {c c' : Catalog} {d d' : Definition} {f : Field}
  {kind : Kind} {place : Nat}

/-- The type that is named, if one is, is there. -/
def Field.Known (s : Schema) (f : Field) : Prop :=
  ∀ name, f.typeName = some name → (s.typeOf? name).isSome = true

/-- What becomes of a field whose type is known. -/
def Field.resolved (s : Schema) (kind : Kind) (f : Field) (place : Nat) : Catalog.Field :=
  ⟨f.name, (f.typeName.bind s.typeOf?).getD .uint, f.isArray, f.isDeprecated,
    if kind = .struct then UInt32.ofNat (place + 1) else f.value.toUInt32⟩

def Definition.resolved (s : Schema) (d : Definition) : Catalog.Definition :=
  ⟨d.name, d.kind, d.fields.zipIdx.map fun p => p.1.resolved s d.kind p.2⟩

theorem Field.compile_eq_ok_iff {g : Catalog.Field} :
    f.compile s kind place = .ok g ↔ f.Known s ∧ f.resolved s kind place = g := by
  unfold compile Known resolved
  cases hn : f.typeName with
  | none => cases kind <;> simp
  | some name =>
    cases ht : s.typeOf? name with
    | none => simp [ht]
    | some type => cases kind <;> simp [ht]

theorem Definition.compile_eq_ok_iff {d' : Catalog.Definition} :
    d.compile s = .ok d' ↔ (∀ f ∈ d.fields, f.Known s) ∧ d.resolved s = d' := by
  have hknown : (∀ p ∈ d.fields.zipIdx, p.1.Known s) ↔ ∀ f ∈ d.fields, f.Known s := by
    rw [← List.forall_mem_map (f := Prod.fst) (P := Field.Known s), List.zipIdx_map_fst]
  have hfields : ∀ fields, d.fields.zipIdx.mapM (fun p => p.1.compile s d.kind p.2) = .ok fields ↔
      (∀ f ∈ d.fields, f.Known s) ∧ (d.resolved s).fields = fields := by
    intro fields
    simp only [Except.mapM_eq_ok, Field.compile_eq_ok_iff]
    rw [List.forall₂_and_left (p := fun q : Field × Nat => q.1.Known s), hknown,
      ← List.forall₂_map_left_iff (R := Eq), List.forall₂_eq_eq_eq]
    rfl
  have hstep : d.compile s =
      d.fields.zipIdx.mapM (fun p => p.1.compile s d.kind p.2) >>= fun fields =>
        pure ⟨d.name, d.kind, fields⟩ := rfl
  simp only [hstep, Except.bind_eq_ok, Except.pure_eq_ok, hfields]
  constructor
  · rintro ⟨fields, ⟨hall, rfl⟩, rfl⟩
    exact ⟨hall, rfl⟩
  · rintro ⟨hall, rfl⟩
    exact ⟨_, ⟨hall, rfl⟩, rfl⟩

/-- A schema is compiled if it is valid and names no type that is not there. -/
theorem compile_eq_ok_iff_valid : s.compile.result = .ok c ↔
    s.Valid ∧ (∀ d ∈ s.definitions, ∀ f ∈ d.fields, f.Known s) ∧
      s.definitions.map (Definition.resolved s) = c.definitions := by
  rw [compile_eq_ok_iff]
  simp only [Definition.compile_eq_ok_iff]
  rw [List.forall₂_and_left (p := fun d : Definition => ∀ f ∈ d.fields, f.Known s),
    ← List.forall₂_map_left_iff (R := Eq), List.forall₂_eq_eq_eq]
  exact and_congr_left fun _ => ⟨valid_of_check, Valid.check_eq_ok⟩

/-- The places of fields matter in structs alone. -/
theorem Definition.fields_resolved (hk : d.kind ≠ .struct) :
    (d.resolved s).fields = d.fields.map fun f => f.resolved s d.kind 0 := by
  have hplace : ∀ p : Field × Nat, p.1.resolved s d.kind p.2 = p.1.resolved s d.kind 0 :=
    fun p => by rw [Field.resolved, Field.resolved, if_neg hk, if_neg hk]
  rw [resolved, List.map_congr_left fun p _ => hplace p]
  show d.fields.zipIdx.map ((fun f => f.resolved s d.kind 0) ∘ Prod.fst) = _
  rw [← List.map_map, List.zipIdx_map_fst]

/-! ### Definitions at other places -/

/-- The fields of a definition are among those of another of its name and kind; of a struct they are
all. -/
structure Definition.Within (d d' : Definition) : Prop where
  name : d'.name = d.name
  kind : d'.kind = d.kind
  mem : ∀ f ∈ d.fields, f ∈ d'.fields
  struct : d.kind = .struct → d'.fields = d.fields

/-- Each definition of `s` has its place in `s'`. -/
def Within (σ : Nat → Nat) (s s' : Schema) : Prop :=
  ∀ ⦃index d⦄, s.definitions[index]? = some d →
    ∃ d', s'.definitions[σ index]? = some d' ∧ d.Within d'

/-- A name stands for the same type, at its new place. -/
theorem Within.typeOf? (h : s.Within σ s') (hnames : (s'.definitions.map (·.name)).Nodup)
    (name : String) (type : TypeRef) (htype : s.typeOf? name = some type) :
    s'.typeOf? name = some (type.relocate σ) := by
  rcases TypeRef.eq_some_of_orElse htype with hprimitive | ⟨hnone, index, hindex, rfl⟩
  · rw [Schema.typeOf?, hprimitive]
    cases type with
    | definition index => exact absurd hprimitive TypeRef.ofName?_ne_definition
    | _ => rfl
  · obtain ⟨d, hd, hname⟩ := getElem?_of_lastIndex? hindex
    obtain ⟨d', hd', hwithin⟩ := h hd
    have hplace : s'.indexOf? name = some (σ index) :=
      (indexes_lastIndex? hnames).find_eq_some_iff.mpr
        ⟨d', hd', hwithin.name.trans (eq_of_beq hname)⟩
    rw [Schema.typeOf?, hnone, hplace]
    rfl

section Resolved

variable (h : ∀ name type, s.typeOf? name = some type → s'.typeOf? name = some (type.relocate σ))
include h

theorem Field.resolved_relocate (hf : f.Known s) :
    f.resolved s' kind place = (f.resolved s kind place).relocate σ := by
  have htype : (f.typeName.bind s'.typeOf?).getD .uint =
      ((f.typeName.bind s.typeOf?).getD .uint).relocate σ := by
    cases hn : f.typeName with
    | none => rfl
    | some name =>
      obtain ⟨type, htype⟩ := Option.isSome_iff_exists.mp (hf name hn)
      simp [htype, h _ _ htype]
  rw [resolved, htype]
  rfl

theorem Definition.map_relocate_fields (hd : ∀ f ∈ d.fields, f.Known s) :
    (d.resolved s).fields.map (Catalog.Field.relocate σ) = (d.resolved s').fields := by
  rw [Definition.resolved, Definition.resolved, List.map_map]
  refine List.map_congr_left fun p hp => ?_
  have hf := List.mem_of_getElem? (List.mem_zipIdx_iff_getElem?.mp hp)
  exact (Field.resolved_relocate h (hd p.1 hf)).symm

/-- Fields of enums and messages that are kept in order are resolved to fields that are. -/
theorem Definition.sublist_resolved (hk : d.kind ≠ .struct) (hkind : d'.kind = d.kind)
    (hfields : d.fields.Sublist d'.fields) (hd : ∀ f ∈ d.fields, f.Known s) :
    ((d.resolved s).fields.map (Catalog.Field.relocate σ)).Sublist (d'.resolved s').fields := by
  rw [map_relocate_fields h hd, fields_resolved hk, fields_resolved (hkind ▸ hk), hkind]
  exact hfields.map _

theorem Definition.Within.resolved (hwithin : d.Within d') (hd : ∀ f ∈ d.fields, f.Known s) :
    (d.resolved s).Within σ (d'.resolved s') := by
  have hstruct : d.kind = .struct →
      (d'.resolved s').fields = (d.resolved s).fields.map (Catalog.Field.relocate σ) := by
    intro hk
    rw [map_relocate_fields h hd, Definition.resolved, Definition.resolved, hwithin.struct hk,
      hwithin.kind]
  refine ⟨hwithin.name, hwithin.kind, fun g hg => ?_, hstruct⟩
  have hmem := List.mem_map_of_mem (f := Catalog.Field.relocate σ) hg
  by_cases hk : d.kind = .struct
  · rwa [hstruct hk]
  · rw [map_relocate_fields h hd, fields_resolved hk] at hmem
    rw [fields_resolved (hwithin.kind ▸ hk), hwithin.kind]
    exact List.map_subset _ hwithin.mem hmem

end Resolved

theorem exists_of_getElem?_compile (hc : s.compile.result = .ok c) {index : Nat}
    {d : Catalog.Definition} (hd : c.definitions[index]? = some d) :
    ∃ e, s.definitions[index]? = some e ∧ (∀ f ∈ e.fields, f.Known s) ∧ e.resolved s = d := by
  obtain ⟨-, hknown, hdefs⟩ := compile_eq_ok_iff_valid.mp hc
  rw [← hdefs, List.getElem?_map] at hd
  obtain ⟨e, he, hed⟩ := Option.map_eq_some_iff.mp hd
  exact ⟨e, he, hknown e (List.mem_of_getElem? he), hed⟩

theorem getElem?_compile (hc : s.compile.result = .ok c) {index : Nat}
    (hd : s.definitions[index]? = some d) : c.definitions[index]? = some (d.resolved s) := by
  obtain ⟨-, -, hdefs⟩ := compile_eq_ok_iff_valid.mp hc
  rw [← hdefs, List.getElem?_map, hd]
  rfl

/-- A name stands for the same type before and after compiling. -/
theorem typeOf?_of_compile (hc : s.compile.result = .ok c) (name : String) :
    c.typeOf? name = s.typeOf? name := by
  have hindex : c.indexOf? name = s.indexOf? name := by
    have hc' : c.indexOf? name = lastIndex? (· == name) (c.definitions.map (·.name)) := by
      rw [lastIndex?_map]
      rfl
    rw [hc', names_of_compile hc, lastIndex?_map]
    rfl
  rw [Catalog.typeOf?, Schema.typeOf?, hindex]

/-- What compiling makes of a schema has its places in what it makes of the other. -/
theorem Within.of_compile (h : s.Within σ s') (hc : s.compile.result = .ok c)
    (hc' : s'.compile.result = .ok c') :
    c.Within σ c' where
  valid := valid_of_compile hc
  valid' := valid_of_compile hc'
  closed := closed_of_compile hc
  definition hd := by
    obtain ⟨d, he, hknown, rfl⟩ := exists_of_getElem?_compile hc hd
    obtain ⟨d', hd', hwithin⟩ := h he
    have htype := h.typeOf? (compile_eq_ok_iff_valid.mp hc').1.names
    exact ⟨d'.resolved s', getElem?_compile hc' hd', hwithin.resolved htype hknown⟩

/-- Definitions at the same place of two catalogs come from such definitions of the schemas. -/
theorem Within.exists_of_compile (h : s.Within σ s') (hc : s.compile.result = .ok c)
    (hc' : s'.compile.result = .ok c') {index : Nat} {e e' : Catalog.Definition}
    (he : c.definitions[index]? = some e) (he' : c'.definitions[σ index]? = some e') :
    ∃ d d', s.definitions[index]? = some d ∧ s'.definitions[σ index]? = some d' ∧ d.Within d' ∧
      (∀ f ∈ d.fields, f.Known s) ∧ d.resolved s = e ∧ d'.resolved s' = e' := by
  obtain ⟨d, hd, hknown, hde⟩ := exists_of_getElem?_compile hc he
  obtain ⟨d', hd', -, hde'⟩ := exists_of_getElem?_compile hc' he'
  obtain ⟨d₁, hd₁, hwithin⟩ := h hd
  obtain rfl : d₁ = d' := Option.some.inj (hd₁.symm.trans hd')
  exact ⟨d, d₁, hd, hd', hwithin, hknown, hde, hde'⟩

theorem Within.inOrder_of_compile (h : s.Within σ s') (hc : s.compile.result = .ok c)
    (hc' : s'.compile.result = .ok c')
    (horder : ∀ ⦃index d d'⦄, s.definitions[index]? = some d → s'.definitions[σ index]? = some d' →
      d.kind = .message → d.fields.Sublist d'.fields) : Catalog.InOrder σ c c' := by
  intro index _ _ he he' hk
  obtain ⟨d, d', hd, hd', hwithin, hknown, rfl, rfl⟩ := h.exists_of_compile hc hc' he he'
  have htype := h.typeOf? (compile_eq_ok_iff_valid.mp hc').1.names
  have hnot : d.kind ≠ .struct := by
    show (d.resolved s).kind ≠ .struct
    simp [hk]
  exact Definition.sublist_resolved htype hnot hwithin.kind (horder hd hd' hk) hknown

theorem Within.onto_of_compile (h : s.Within σ s') (hc : s.compile.result = .ok c)
    (hc' : s'.compile.result = .ok c')
    (hfields : ∀ ⦃index d d'⦄, s.definitions[index]? = some d → s'.definitions[σ index]? = some d' →
      d'.fields ⊆ d.fields) : Catalog.Onto σ c c' := by
  intro index _ _ he he' f' hf'
  obtain ⟨d, d', hd, hd', hwithin, hknown, rfl, rfl⟩ := h.exists_of_compile hc hc' he he'
  have htype := h.typeOf? (compile_eq_ok_iff_valid.mp hc').1.names
  rw [← List.mem_map]
  by_cases hk : d.kind = .struct
  · rwa [← (hwithin.resolved htype hknown).struct hk]
  · rw [Definition.map_relocate_fields htype hknown, Definition.fields_resolved hk]
    rw [Definition.fields_resolved (hwithin.kind ▸ hk), hwithin.kind] at hf'
    exact List.map_subset _ (hfields hd hd') hf'

theorem Within.typeOf?_compile (h : s.Within σ s') (hc : s.compile.result = .ok c)
    (hc' : s'.compile.result = .ok c') {name : String} {type : TypeRef}
    (htype : c.typeOf? name = some type) : c'.typeOf? name = some (type.relocate σ) := by
  rw [typeOf?_of_compile hc] at htype
  rw [typeOf?_of_compile hc', h.typeOf? (compile_eq_ok_iff_valid.mp hc').1.names name type htype]

end WireSchema.Schema
