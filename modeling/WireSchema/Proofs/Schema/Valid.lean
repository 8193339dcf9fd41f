import Mathlib.Data.List.Nodup
import Mathlib.Tactic.MkIffOfInductiveProp
import WireSchema.Proofs.Schema.Containment
import WireSchema.Proofs.Schema.Types
import WireSchema.Proofs.Schema.Validity

/-! Valid schemas. What makes a schema valid is said here of its definitions and fields alone, with
no look-up and no walk; the checks find a flaw in exactly the schemas that are not valid. -/

namespace WireSchema.Schema

variable {s : Schema} {name a b : String} {d : Definition}

/-- A struct of one name has a field, no array, whose type is a struct of another name. -/
def Embeds (s : Schema) (a b : String) : Prop :=
  ∃ d ∈ s.definitions, d.kind = .struct ∧ d.name = a ∧
    (∃ f ∈ d.fields, f.isArray = false ∧ f.typeName = some b) ∧
    ∃ d' ∈ s.definitions, d'.kind = .struct ∧ d'.name = b

@[mk_iff]
structure Valid (s : Schema) : Prop where
  free : ∀ d ∈ s.definitions,
    TypeRef.isPrimitiveName d.name = false ∧ d.name ≠ "ByteBuffer" ∧ d.name ≠ "package"
  names : (s.definitions.map (·.name)).Nodup
  fieldNames : ∀ d ∈ s.definitions, (d.fields.map (·.name)).Nodup
  values : ∀ d ∈ s.definitions, d.kind = .enum → (d.fields.map (·.value)).Nodup
  types : ∀ d ∈ s.definitions, d.kind ≠ .enum → ∀ f ∈ d.fields, ∃ name, f.typeName = some name ∧
    (TypeRef.isPrimitiveName name = true ∨ ∃ d' ∈ s.definitions, d'.name = name)
  ids : ∀ d ∈ s.definitions, d.kind = .message →
    (∀ f ∈ d.fields, 0 < f.value.toInt) ∧ (d.fields.map (·.value)).Nodup
  acyclic : ∀ name, ¬ Relation.TransGen s.Embeds name name

theorem isReserved_eq_false_iff : isReserved name = false ↔
    TypeRef.isPrimitiveName name = false ∧ name ≠ "ByteBuffer" ∧ name ≠ "package" := by
  simp [isReserved, reservedNames]

/-- Where names differ, a struct is found by its name. -/
theorem struct?_eq_some_iff (hnames : (s.definitions.map (·.name)).Nodup) :
    s.struct? name = some d ↔ d ∈ s.definitions ∧ d.kind = .struct ∧ d.name = name := by
  constructor
  · intro h
    obtain ⟨hd, hname, hkind⟩ := struct?_eq_some h
    exact ⟨hd, hkind, hname⟩
  · rintro ⟨hd, hkind, rfl⟩
    have hfind : s.definition? d.name = some d := by
      unfold definition?
      cases hd' : s.definitions.find? (·.name == d.name) with
      | none =>
        have := List.find?_eq_none.mp hd' d hd
        simp at this
      | some d' =>
        have hname : d'.name = d.name := by simpa using List.find?_some hd'
        rw [List.inj_on_of_nodup_map hnames (List.mem_of_find?_eq_some hd') hd hname]
    rw [struct?, hfind]
    exact if_pos hkind

theorem Definition.mem_contained :
    b ∈ d.contained ↔ ∃ f ∈ d.fields, f.isArray = false ∧ f.typeName = some b := by
  simp [contained, and_assoc]

theorem contains_iff (hnames : (s.definitions.map (·.name)).Nodup) : s.Contains a b ↔
    ∃ d ∈ s.definitions, d.kind = .struct ∧ d.name = a ∧
      ∃ f ∈ d.fields, f.isArray = false ∧ f.typeName = some b := by
  simp only [Contains, struct?_eq_some_iff hnames, Definition.mem_contained, and_assoc]

/-- A way from struct to struct goes through structs only: each type on it but the last contains the
next. -/
theorem transGen_embeds_iff (hnames : (s.definitions.map (·.name)).Nodup) :
    Relation.TransGen s.Embeds a b ↔
      Relation.TransGen s.Contains a b ∧ ∃ d ∈ s.definitions, d.kind = .struct ∧ d.name = b := by
  constructor
  · intro h
    constructor
    · have hle : s.Embeds ≤ s.Contains := by
        rintro a b ⟨d, hd, hkind, hname, hfield, -⟩
        exact (contains_iff hnames).mpr ⟨d, hd, hkind, hname, hfield⟩
      exact Relation.TransGen.mono hle a b h
    · obtain ⟨_, -, _, -, -, -, -, hlast⟩ := Relation.TransGen.tail'_iff.mp h
      exact hlast
  · rintro ⟨h, hlast⟩
    induction h using Relation.TransGen.head_induction_on with
    | single hab =>
      obtain ⟨d, hd, hkind, hname, hfield⟩ := (contains_iff hnames).mp hab
      exact .single ⟨d, hd, hkind, hname, hfield, hlast⟩
    | head hac hcb ih =>
      obtain ⟨d, hd, hkind, hname, hfield⟩ := (contains_iff hnames).mp hac
      obtain ⟨_, hcd, -⟩ := Relation.TransGen.head'_iff.mp hcb
      obtain ⟨d', hd', hkind', hname', -⟩ := (contains_iff hnames).mp hcd
      exact .head ⟨d, hd, hkind, hname, hfield, d', hd', hkind', hname'⟩ ih

theorem checkContainment_eq_ok_iff_embeds (hnames : (s.definitions.map (·.name)).Nodup) :
    s.checkContainment = .ok () ↔ ∀ name, ¬ Relation.TransGen s.Embeds name name := by
  rw [checkContainment_eq_ok_iff]
  apply forall_congr'
  intro name
  rw [transGen_embeds_iff hnames, not_iff_not]
  refine ⟨fun h => ⟨h, ?_⟩, And.left⟩
  obtain ⟨_, hstep, -⟩ := Relation.TransGen.head'_iff.mp h
  obtain ⟨d, hd, hkind, hname, -⟩ := (contains_iff hnames).mp hstep
  exact ⟨d, hd, hkind, hname⟩

theorem checkTypes_eq_ok_iff_named : s.checkTypes d = .ok () ↔
    ∀ f ∈ d.fields, ∃ name, f.typeName = some name ∧
      (TypeRef.isPrimitiveName name = true ∨ ∃ d' ∈ s.definitions, d'.name = name) := by
  simp only [checkTypes_eq_ok_iff, isSome_typeOf?_iff]

theorem valid_of_check (h : s.check = .ok ()) : s.Valid := by
  obtain ⟨hnames, hdefinitions, hcontainment⟩ := check_eq_ok_iff.mp h
  obtain ⟨hfree, hnodup⟩ := checkNames_eq_ok_iff.mp hnames
  have hchecked := fun d hd => checkDefinition_eq_ok_iff.mp (hdefinitions d hd)
  refine ⟨?_, hnodup, fun d hd => (hchecked d hd).1, ?_, ?_, ?_,
    (checkContainment_eq_ok_iff_embeds hnodup).mp hcontainment⟩
  · exact fun d hd => isReserved_eq_false_iff.mp (hfree d hd).1
  · intro d hd hkind
    have hvalues := (hchecked d hd).2
    rwa [hkind] at hvalues
  · intro d hd hkind
    have htypes := (hchecked d hd).2
    cases hd' : d.kind with
    | enum => exact absurd hd' hkind
    | struct =>
      rw [hd'] at htypes
      exact checkTypes_eq_ok_iff_named.mp htypes
    | message =>
      rw [hd'] at htypes
      exact checkTypes_eq_ok_iff_named.mp htypes.1
  · intro d hd hkind
    have hids := (hchecked d hd).2
    rw [hkind] at hids
    exact hids.2

theorem Valid.check_eq_ok (h : s.Valid) : s.check = .ok () := by
  refine check_eq_ok_iff.mpr ⟨?_, fun d hd => ?_,
    (checkContainment_eq_ok_iff_embeds h.names).mpr h.acyclic⟩
  · exact checkNames_eq_ok_iff.mpr
      ⟨fun d hd => ⟨isReserved_eq_false_iff.mpr (h.free d hd), by simp⟩, h.names⟩
  · refine checkDefinition_eq_ok_iff.mpr ⟨h.fieldNames d hd, ?_⟩
    have htypes := fun hkind => checkTypes_eq_ok_iff_named.mpr (h.types d hd hkind)
    cases hkind : d.kind with
    | enum => exact h.values d hd hkind
    | struct => exact htypes (by simp [hkind])
    | message => exact ⟨htypes (by simp [hkind]), h.ids d hd hkind⟩

/-- The checks accept exactly the valid schemas. The walk on which they decide about containment
comes to an end from every state and in every schema, also where structs contain one another in a
circle. -/
theorem check_eq_ok_iff_valid (s : Schema) : (s.check = .ok () ↔ s.Valid) ∧
    (∀ path cleared names, ∃! answer, Walks s path cleared names answer) ∧
    ∀ answer, Walks s [] [] (s.definitions.map (·.name)) answer →
      s.checkContainment = answer.map fun _ => () :=
  ⟨⟨valid_of_check, Valid.check_eq_ok⟩, s.existsUnique_walks, fun _ h => h.checkContainment_eq⟩

end WireSchema.Schema
