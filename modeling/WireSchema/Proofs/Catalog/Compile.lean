import WireSchema.Catalog.Compile
import WireSchema.Proofs.Catalog.Valid
import WireSchema.Proofs.Schema.Valid

/-! Compiling a schema makes a valid catalog: its definitions and fields are those of the schema in
order, under the same names, and the checks of the schema carry over to the values. -/

namespace WireSchema.Schema

open Catalog (Valid)

/-- What becomes of a field: its type is an unsigned number if none is named, and everything but the
type and the value of a struct field is kept. -/
theorem Field.of_compile {s : Schema} {kind : Kind} {f : Field} {place : Nat} {g : Catalog.Field}
    (h : f.compile s kind place = .ok g) : ∃ type,
      (f.typeName = none ∧ type = .uint ∨ ∃ n, f.typeName = some n ∧ s.typeOf? n = some type) ∧
      g = ⟨f.name, type, f.isArray, f.isDeprecated,
        if kind = .struct then UInt32.ofNat (place + 1) else f.value.toUInt32⟩ := by
  unfold compile at h
  cases hn : f.typeName with
  | none =>
    simp only [hn, Except.bind_eq_ok, Except.pure_eq_ok, exists_eq_left'] at h
    exact ⟨_, .inl ⟨rfl, rfl⟩, by rw [← h]; cases kind <;> rfl⟩
  | some n =>
    cases ht : s.typeOf? n with
    | none => simp [hn, ht] at h
    | some type =>
      simp only [hn, ht, Except.bind_eq_ok, Except.pure_eq_ok, exists_eq_left'] at h
      exact ⟨type, .inr ⟨n, rfl, ht⟩, by rw [← h]; cases kind <;> rfl⟩

theorem Field.name_of_compile {s : Schema} {kind : Kind} {f : Field} {place : Nat}
    {g : Catalog.Field} (h : f.compile s kind place = .ok g) : g.name = f.name := by
  obtain ⟨_, -, rfl⟩ := of_compile h
  rfl

theorem Field.value_of_compile {s : Schema} {kind : Kind} {f : Field} {place : Nat}
    {g : Catalog.Field} (h : f.compile s kind place = .ok g) (hk : kind ≠ .struct) :
    g.value = f.value.toUInt32 := by
  obtain ⟨_, -, rfl⟩ := of_compile h
  exact if_neg hk

theorem Definition.of_compile {s : Schema} {d : Definition} {d' : Catalog.Definition}
    (h : d.compile s = .ok d') : d'.name = d.name ∧ d'.kind = d.kind ∧
      List.Forall₂ (fun p g => p.1.compile s d.kind p.2 = .ok g) d.fields.zipIdx d'.fields := by
  obtain ⟨fields, hfields, h⟩ := Except.bind_eq_ok.mp h
  obtain rfl := Except.pure_eq_ok.mp h
  exact ⟨rfl, rfl, Except.mapM_eq_ok.mp hfields⟩

/-- A property that each field keeps is kept by the list of fields. -/
theorem Definition.map_of_compile {α : Type} {s : Schema} {d : Definition}
    {d' : Catalog.Definition} {p : Field → α} {q : Catalog.Field → α} (h : d.compile s = .ok d')
    (hpq : ∀ {f place g}, f.compile s d.kind place = .ok g → q g = p f) :
    d'.fields.map q = d.fields.map p := by
  obtain ⟨-, -, hfields⟩ := of_compile h
  rw [Except.map_eq_of_forall₂ (f := fun r => p r.1) hfields hpq]
  show d.fields.zipIdx.map (p ∘ Prod.fst) = _
  rw [← List.map_map, List.zipIdx_map_fst]

/-- A schema that passes its checks is compiled definition by definition, in order. -/
theorem compile_eq_ok_iff {s : Schema} {c : Catalog} : s.compile.result = .ok c ↔ s.check = .ok () ∧
    List.Forall₂ (fun d d' => d.compile s = .ok d') s.definitions c.definitions := by
  have hresolve : s.compile.result = .ok c ↔ s.resolve = .ok c := by
    rw [compile]
    cases s.resolve with
    | error e => simp [Noted.fail]
    | ok c' =>
      show Except.ok c' = .ok c ↔ _
      rfl
  rw [hresolve, resolve, Except.bind_unit_eq_ok, Except.bind_eq_ok]
  simp only [Except.mapM_eq_ok, Except.pure_eq_ok]
  refine and_congr_right fun _ => ⟨?_, fun h => ⟨c.definitions, h, rfl⟩⟩
  rintro ⟨ds, hds, rfl⟩
  exact hds

theorem exists_of_mem_compile {s : Schema} {c : Catalog} {d' : Catalog.Definition}
    (h : s.compile.result = .ok c) (hd : d' ∈ c.definitions) :
    ∃ d ∈ s.definitions, d.compile s = .ok d' := by
  obtain ⟨-, hdefs⟩ := compile_eq_ok_iff.mp h
  obtain ⟨d, hd, hcd⟩ := Except.exists_of_forall₂ hdefs hd
  exact ⟨d, hd, hcd⟩

theorem names_of_compile {s : Schema} {c : Catalog} (h : s.compile.result = .ok c) :
    c.definitions.map (·.name) = s.definitions.map (·.name) :=
  Except.map_eq_of_forall₂ (compile_eq_ok_iff.mp h).2 fun hd => (Definition.of_compile hd).1

/-- Ids above zero are the same numbers without a sign. -/
theorem ids_of_compile {s : Schema} {d : Definition} {d' : Catalog.Definition}
    (hids : ∀ f ∈ d.fields, 0 < f.value.toInt) (hk : d.kind ≠ .struct) (h : d.compile s = .ok d') :
    ∀ g ∈ d'.fields, 1 ≤ g.value.toNat ∧ g.value.toNat ≤ 2 ^ 31 - 1 := by
  intro g hg
  have hvalues := Definition.map_of_compile (q := fun g => g.value) h fun hf =>
    Field.value_of_compile hf hk
  have hvalue : g.value ∈ d.fields.map (·.value.toUInt32) := hvalues ▸ List.mem_map_of_mem hg
  obtain ⟨f, hf, hfg⟩ := List.mem_map.mp hvalue
  have hpos := hids f hf
  have hhigh := f.value.toInt_lt
  rw [← hfg, Int32.toNat_toUInt32_of_le (Int32.le_iff_toInt_le.mpr (Int.le_of_lt hpos)),
    Int32.toNatClampNeg]
  omega

theorem valid_of_compile {s : Schema} {c : Catalog} (h : s.compile.result = .ok c) : c.Valid where
  names := by
    rw [names_of_compile h]
    exact (valid_of_check (compile_eq_ok_iff.mp h).1).names
  fieldNames d' hd := by
    obtain ⟨d, hd, hcd⟩ := exists_of_mem_compile h hd
    rw [Definition.map_of_compile hcd Field.name_of_compile]
    exact (valid_of_check (compile_eq_ok_iff.mp h).1).fieldNames d hd
  values d' hd hk := by
    obtain ⟨d, hd, hcd⟩ := exists_of_mem_compile h hd
    rw [(Definition.of_compile hcd).2.1] at hk
    rw [Definition.map_of_compile (p := fun f => f.value.toUInt32) hcd
      fun hf => Field.value_of_compile hf hk]
    have hvalid := valid_of_check (compile_eq_ok_iff.mp h).1
    have hvalues : (d.fields.map (·.value)).Nodup := by
      cases hdk : d.kind with
      | enum => exact hvalid.values d hd hdk
      | struct => exact absurd hdk hk
      | message => exact (hvalid.ids d hd hdk).2
    have hinj : ∀ a b : Int32, a ≠ b → a.toUInt32 ≠ b.toUInt32 := fun a b hne hab => hne (by
      rw [← Int32.toInt32_toUInt32 a, hab, Int32.toInt32_toUInt32])
    have := List.Pairwise.map _ hinj hvalues
    rwa [List.map_map] at this
  ids d' hd hk g hg := by
    obtain ⟨d, hd, hcd⟩ := exists_of_mem_compile h hd
    have hdk : d.kind = .message := (Definition.of_compile hcd).2.1.symm.trans hk
    have hids := ((valid_of_check (compile_eq_ok_iff.mp h).1).ids d hd hdk).1
    intro hzero
    have hlow := (ids_of_compile hids (by simp [hdk]) hcd g hg).1
    rw [hzero] at hlow
    exact absurd hlow (by decide)

end WireSchema.Schema
