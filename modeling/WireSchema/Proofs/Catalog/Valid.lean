import WireSchema.Catalog.Basic
import WireSchema.Proofs.Table

/-! Catalogs in which names and values lead to one place. In a valid catalog no two definitions
share a name, no two fields of a definition share a name, no two entries of an enum and no two
fields of a message share a value, and no message field has the id 0, which ends a message. -/

namespace WireSchema.Catalog

/-- Names and values lead to one place, and no id is 0. -/
structure Valid (c : Catalog) : Prop where
  names : (c.definitions.map (·.name)).Nodup
  fieldNames : ∀ d ∈ c.definitions, (d.fields.map (·.name)).Nodup
  values : ∀ d ∈ c.definitions, d.kind ≠ .struct → (d.fields.map (·.value)).Nodup
  ids : ∀ d ∈ c.definitions, d.kind = .message → ∀ f ∈ d.fields, f.value ≠ 0

/-- A key that no two members share leads back to its member. -/
theorem lastIndex?_bind_getElem? {α κ : Type} [DecidableEq κ] {key : α → κ} {l : List α} {a : α}
    (hl : (l.map key).Nodup) (ha : a ∈ l) :
    (lastIndex? (fun b => key b == key a) l).bind (l[·]?) = some a := by
  obtain ⟨i, hi⟩ := List.mem_iff_getElem?.mp ha
  have hlast := (indexes_lastIndex? hl).find_eq_some_iff.mpr ⟨a, hi, rfl⟩
  rw [hlast, Option.bind_some, hi]

/-- The member that a key leads to has that key. -/
theorem mem_of_lastIndex?_bind_getElem? {α κ : Type} [DecidableEq κ] {key : α → κ} {l : List α}
    {k : κ} {a : α} (h : (lastIndex? (fun b => key b == k) l).bind (l[·]?) = some a) :
    a ∈ l ∧ key a = k := by
  obtain ⟨i, hi, ha⟩ := Option.bind_eq_some_iff.mp h
  obtain ⟨b, hb, hkey⟩ := getElem?_of_lastIndex? hi
  obtain rfl : b = a := Option.some.inj (hb.symm.trans ha)
  exact ⟨List.mem_of_getElem? ha, eq_of_beq hkey⟩

namespace Definition

variable {d : Definition} {f : Field}

theorem of_field? {name : String} (h : d.field? name = some f) : f ∈ d.fields ∧ f.name = name :=
  mem_of_lastIndex?_bind_getElem? h

theorem of_fieldOfValue? {value : UInt32} (h : d.fieldOfValue? value = some f) :
    f ∈ d.fields ∧ f.value = value :=
  mem_of_lastIndex?_bind_getElem? h

/-- Where no two fields share a value, a field is found by its own. -/
theorem fieldOfValue?_eq_some_iff {value : UInt32} (h : (d.fields.map (·.value)).Nodup) :
    d.fieldOfValue? value = some f ↔ f ∈ d.fields ∧ f.value = value := by
  constructor
  · exact of_fieldOfValue?
  · rintro ⟨hf, rfl⟩
    exact lastIndex?_bind_getElem? h hf

theorem indexOfName?_eq_none_iff {name : String} :
    d.indexOfName? name = none ↔ ∀ f ∈ d.fields, f.name ≠ name := by
  rw [indexOfName?, lastIndex?_eq_none_iff]
  simp

theorem exists_field?_iff {name : String} :
    (∃ f, d.field? name = some f) ↔ ∃ f ∈ d.fields, f.name = name := by
  constructor
  · exact fun ⟨f, hf⟩ => ⟨f, of_field? hf⟩
  · rintro ⟨f, hf, hname⟩
    have hsome : d.indexOfName? name ≠ none := fun h => indexOfName?_eq_none_iff.mp h f hf hname
    obtain ⟨i, hi⟩ := Option.ne_none_iff_exists'.mp hsome
    obtain ⟨g, hg, -⟩ := getElem?_of_lastIndex? hi
    exact ⟨g, by rw [field?, hi, Option.bind_some, hg]⟩

end Definition

namespace Valid

variable {c : Catalog} {d : Definition} {f : Field}

theorem definition?_name (hc : c.Valid) (hd : d ∈ c.definitions) :
    c.definition? d.name = some d :=
  lastIndex?_bind_getElem? hc.names hd

theorem field?_name (hc : c.Valid) (hd : d ∈ c.definitions) (hf : f ∈ d.fields) :
    d.field? f.name = some f :=
  lastIndex?_bind_getElem? (hc.fieldNames d hd) hf

theorem fieldOfValue?_value (hc : c.Valid) (hd : d ∈ c.definitions) (hk : d.kind ≠ .struct)
    (hf : f ∈ d.fields) : d.fieldOfValue? f.value = some f :=
  lastIndex?_bind_getElem? (hc.values d hd hk) hf

theorem field_eq {g : Field} (hc : c.Valid) (hd : d ∈ c.definitions) (hf : f ∈ d.fields)
    (hg : g ∈ d.fields) (h : f.name = g.name) : f = g :=
  Option.some.inj (by rw [← hc.field?_name hd hf, ← hc.field?_name hd hg, h])

end Valid

end WireSchema.Catalog
