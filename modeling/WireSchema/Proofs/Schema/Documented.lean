import WireSchema.Proofs.Schema.Grammar

/-! The data model of schemas, which the parser keeps to: names that can be written, types for all
fields but the entries of enums, deprecated fields in messages only, and struct fields numbered by
their places. -/

namespace WireSchema

namespace Schema

/-- A field as the data model has it at a place of a definition. The value of a struct field is its
place, counted from 1. -/
structure Field.Documented (kind : Kind) (place : Nat) (f : Field) : Prop where
  name : Char.ofNat 0 ∉ f.name.toList
  typeName : f.typeName.isSome = true ↔ kind ≠ .enum
  deprecated : f.isDeprecated = true → kind = .message
  value : kind = .struct → f.value = Int32.ofInt (place + 1)

structure Definition.Documented (d : Definition) : Prop where
  name : Char.ofNat 0 ∉ d.name.toList
  fields : ∀ p ∈ d.fields.zipIdx, Field.Documented d.kind p.2 p.1

/-- A schema as the data model has it; its names may repeat and its types need not exist. -/
def Documented (s : Schema) : Prop := ∀ d ∈ s.definitions, d.Documented

instance (kind : Kind) (place : Nat) (f : Field) : Decidable (f.Documented kind place) :=
  decidable_of_iff (Char.ofNat 0 ∉ f.name.toList ∧ (f.typeName.isSome = true ↔ kind ≠ .enum) ∧
      (f.isDeprecated = true → kind = .message) ∧
      (kind = .struct → f.value = Int32.ofInt (place + 1)))
    ⟨fun ⟨hname, htype, hdeprecated, hvalue⟩ => ⟨hname, htype, hdeprecated, hvalue⟩,
      fun h => ⟨h.name, h.typeName, h.deprecated, h.value⟩⟩

instance (d : Definition) : Decidable d.Documented :=
  decidable_of_iff (Char.ofNat 0 ∉ d.name.toList ∧
      ∀ p ∈ d.fields.zipIdx, Field.Documented d.kind p.2 p.1)
    ⟨fun ⟨hname, hfields⟩ => ⟨hname, hfields⟩, fun h => ⟨h.name, h.fields⟩⟩

instance (s : Schema) : Decidable s.Documented :=
  inferInstanceAs (Decidable (∀ d ∈ s.definitions, d.Documented))

end Schema

theorem Token.zero_notMem_of_isName {text : String} (h : isName text = true) :
    Char.ofNat 0 ∉ text.toList := by
  have hrest : isNameRest (Char.ofNat 0) = false := by decide
  have hstart : isNameStart (Char.ofNat 0) = false := by decide
  intro hmem
  rw [isName] at h
  cases hchars : text.toList with
  | nil => simp [hchars] at hmem
  | cons c rest =>
    rw [hchars] at h hmem
    obtain ⟨hc, hall⟩ := Bool.and_eq_true_iff.mp h
    rcases List.mem_cons.mp hmem with rfl | hmem
    · simp [hstart] at hc
    · have := List.all_eq_true.mp hall _ hmem
      simp [hrest] at this

namespace Grammar

theorem Field.documented {kind : Kind} {place : Nat} {f : Schema.Field} {ts : List Token}
    (h : Field kind place f ts) : f.Documented kind place := by
  cases h with
  | entry hname => exact ⟨Token.zero_notMem_of_isName hname, by simp, by simp, by simp⟩
  | struct htype hname => exact ⟨Token.zero_notMem_of_isName hname, by simp, by simp, fun _ => rfl⟩
  | message htype hname => exact ⟨Token.zero_notMem_of_isName hname, by simp, by simp, by simp⟩

theorem Definition.documented {d : Schema.Definition} {ts : List Token} (h : Definition d ts) :
    d.Documented := by
  cases h with
  | @mk kind keyword name left right fields ts hkeyword hname hleft hfields =>
    have hdocumented := hfields.forall_mem_zipIdx (p := fun place f => f.Documented kind place)
      Field.documented
    exact ⟨Token.zero_notMem_of_isName hname, hdocumented⟩

end Grammar

theorem Grammar.documented {s : Schema} {ts : List Token} (h : Grammar s ts) : s.Documented := by
  cases h with
  | mk hpackage hdefinitions => exact hdefinitions.forall_mem Definition.documented

/-- Whatever is parsed keeps to the data model, valid or not. -/
theorem Schema.documented_of_parse {text : String} {s : Schema} (h : parse text = .ok s) :
    s.Documented := by
  obtain ⟨ts, hgrammar⟩ := grammar_of_parse h
  exact hgrammar.documented

end WireSchema
