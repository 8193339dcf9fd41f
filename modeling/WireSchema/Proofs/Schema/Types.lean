import Mathlib.Algebra.Group.Nat.Defs
import WireSchema.Proofs.Table
import WireSchema.Schema.Types

/-! Types by name and by id. A name stands for a type of that name, a primitive before a definition,
and an id leads back to its type where the places of definitions are small enough to be ids. -/

namespace WireSchema

namespace TypeRef

theorem name?_of_ofName? {name : String} {type : TypeRef} (h : ofName? name = some type) :
    type.name? = some name := by
  have hprimitives : ∀ p ∈ primitives, p.2.name? = some p.1 := by decide
  exact hprimitives _ (Table.mem_of_get? h)

theorem ofName?_ne_definition {name : String} {index : Nat} :
    ofName? name ≠ some (definition index) := by
  intro h
  have := name?_of_ofName? h
  simp [name?] at this

/-- What a name stands for is a primitive, or else the definition at its place. -/
theorem eq_some_of_orElse {name : String} {place : Option Nat} {type : TypeRef}
    (h : (ofName? name <|> place.map .definition) = some type) : ofName? name = some type ∨
      ofName? name = none ∧ ∃ index, place = some index ∧ type = .definition index := by
  cases hprimitive : ofName? name with
  | some primitive => simpa [hprimitive] using h
  | none =>
    obtain ⟨index, hindex, rfl⟩ : ∃ index, place = some index ∧ .definition index = type := by
      simpa [hprimitive] using h
    exact .inr ⟨rfl, index, hindex, rfl⟩

theorem ofId?_id_primitive {type : TypeRef} {name : String} (h : type.name? = some name)
    (count : Nat) : ofId? type.id count = some type := by
  cases type with
  | definition index => simp [name?] at h
  | _ => rfl

theorem ofId?_id_definition {index count : Nat} (hindex : index < count) (hcount : count < 2 ^ 31) :
    ofId? (definition index).id count = some (definition index) := by
  have hid : (definition index).id.toInt = index := by
    rw [id]
    exact Int32.toInt_ofInt_of_le (by omega) (by omega)
  rw [ofId?, hid, if_neg (by omega), Int.toNat_natCast, if_pos hindex]

/-- An id of a definition stands for one that is there. -/
theorem lt_of_ofId? {id : Int32} {index count : Nat}
    (h : ofId? id count = some (definition index)) : index < count := by
  have hprimitives : ∀ p ∈ primitives, p.2 ≠ definition index := by simp [primitives]
  unfold ofId? at h
  split at h
  · obtain ⟨p, hp, htype⟩ := Option.map_eq_some_iff.mp h
    exact absurd htype (hprimitives p (List.mem_of_getElem? hp))
  · split at h
    · cases h
      assumption
    · cases h

end TypeRef

namespace Schema

variable {s : Schema} {name : String}

theorem isSome_typeOf?_iff : (s.typeOf? name).isSome = true ↔
    TypeRef.isPrimitiveName name = true ∨ ∃ d ∈ s.definitions, d.name = name := by
  have hindex : (s.indexOf? name).isSome = true ↔ ∃ d ∈ s.definitions, d.name = name := by
    rw [← Option.ne_none_iff_isSome, indexOf?, ne_eq, lastIndex?_eq_none_iff]
    simp
  rw [typeOf?, TypeRef.isPrimitiveName, ← hindex]
  cases TypeRef.ofName? name <;> simp

theorem name_of_indexOf? {index : Nat} (h : s.indexOf? name = some index) :
    (s.definitions.map (·.name))[index]? = some name := by
  obtain ⟨d, hd, hname⟩ := getElem?_of_lastIndex? h
  rw [List.getElem?_map, hd, Option.map_some, eq_of_beq hname]

/-- The type of a name is the primitive of that name, or stands at a place with that name. -/
theorem typeOf?_eq_some {type : TypeRef} (h : s.typeOf? name = some type) :
    type.name? = some name ∨
      ∃ index, type = .definition index ∧ (s.definitions.map (·.name))[index]? = some name := by
  rcases TypeRef.eq_some_of_orElse h with hprimitive | ⟨-, index, hindex, rfl⟩
  · exact .inl (TypeRef.name?_of_ofName? hprimitive)
  · exact .inr ⟨index, rfl, name_of_indexOf? hindex⟩

end Schema

end WireSchema
