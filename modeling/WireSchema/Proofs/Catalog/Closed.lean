import WireSchema.Proofs.Schema.Types
import WireSchema.Proofs.Value.Faults
import WireSchema.Proofs.Value.Traversal

/-! Closed catalogs, in which every type of a field leads to a definition. Writing and reading go
from type to type along fields only, so that from a type of such a catalog neither of them ever
meets an unknown type. -/

namespace WireSchema

def Shape.type : Shape → TypeRef
  | .one type => type
  | .many type => type

namespace Catalog

variable {c : Catalog} {d : Definition} {name : String}

/-- A primitive, or a definition at one of the places of the catalog. -/
def Has (c : Catalog) (type : TypeRef) : Prop :=
  ∀ index, type = .definition index → index < c.definitions.length

def Closed (c : Catalog) : Prop := ∀ d ∈ c.definitions, ∀ f ∈ d.fields, c.Has f.type

@[simp] theorem Field.type_shape (f : Field) : f.shape.type = f.type := by
  rw [Field.shape]
  split <;> rfl

theorem Has.exists_getElem? {index : Nat} (h : c.Has (.definition index)) :
    ∃ d, c.definitions[index]? = some d :=
  ⟨_, List.getElem?_eq_getElem (h index rfl)⟩

/-- A type that a name stands for is one of the catalog. -/
theorem has_of_typeOf? {type : TypeRef} (h : c.typeOf? name = some type) : c.Has type := by
  rintro index rfl
  rcases TypeRef.eq_some_of_orElse h with hprimitive | ⟨-, i, hi, hindex⟩
  · exact absurd hprimitive TypeRef.ofName?_ne_definition
  · obtain rfl := TypeRef.definition.inj hindex
    obtain ⟨d, hd, -⟩ := getElem?_of_lastIndex? hi
    exact (List.getElem?_eq_some_iff.mp hd).1

/-! ### Writing -/

section Writing

open Writing (Avoids)

/-- No value meets an unknown type when it is written as a type of a closed catalog. -/
theorem Closed.avoids_write (hc : c.Closed) (v : Value) :
    ∀ shape : Shape, c.Has shape.type → Avoids (.unknownType name) (c.write v shape) := by
  induction v with
  | bool | byte | int | uint | float | string =>
    rintro (type | type) h
    · cases type with
      | definition index =>
        obtain ⟨d, hd⟩ := h.exists_getElem?
        simp [write, hd]
      | _ => simp [write, avoids_writeString]
    · simp [write]
  | array items ih =>
    rintro (type | type) h
    · cases type with
      | definition index =>
        obtain ⟨d, hd⟩ := h.exists_getElem?
        simp [write, hd]
      | _ => simp [write]
    · rw [write_array]
      refine (Writing.avoids_bytes _ _).append (Writing.avoids_concat ?_)
      rintro _ hw
      obtain ⟨v, hv, rfl⟩ := List.mem_map.mp hw
      exact ih v hv (.one type) h
  | enum type entry =>
    rintro (type' | type') h
    · cases type' with
      | definition index =>
        obtain ⟨d, hd⟩ := h.exists_getElem?
        simp only [write, hd]
        split
        · exact avoids_writeEntry fun _ => by simp
        · simp
      | _ => simp [write]
    · simp [write]
  | object type members ih =>
    rintro (type' | type') h
    · cases type' with
      | definition index =>
        obtain ⟨d, hd⟩ := h.exists_getElem?
        simp only [write, hd]
        split
        · refine avoids_writeObject (by simp) (by simp) fun f hf _ write hwrite => ?_
          rw [get?_memberWriters] at hwrite
          obtain ⟨v, hv, rfl⟩ := Option.map_eq_some_iff.mp hwrite
          have htype : c.Has f.shape.type := by
            rw [Field.type_shape]
            exact hc d (List.mem_of_getElem? hd) f hf
          exact ih (f.name, v) (Table.mem_of_get? hv) f.shape htype
        · simp
      | _ => simp [write]
    · simp [write]

end Writing

/-! ### Reading -/

theorem Closed.avoids_readWithin (hc : c.Closed) (levels : Nat) (shape : Shape)
    (h : c.Has shape.type) : Reader.Avoids (.unknownType name) (c.readWithin levels shape) := by
  have hinherited :
      c.Inherited (fun shape => c.Has shape.type) (Reader.Avoids (.unknownType name)) := by
    refine .avoids (fun {index d} _ hd f hf => ?_) id fun {index} hindex hnone => ?_
    · rw [Field.type_shape]
      exact hc d (List.mem_of_getElem? hd) f hf
    · obtain ⟨d, hd⟩ := hindex.exists_getElem?
      exact absurd (hnone.symm.trans hd) nofun
  exact hinherited.readWithin levels h

section Values

variable {type : TypeRef}

theorem Closed.encodeAs_ne (hc : c.Closed) (h : c.Has type) (v : Value) :
    (c.encodeAs type v).result ≠ .error (.unknownType name) :=
  Writing.toNoted_result_ne_error (hc.avoids_write v (.one type) h)

theorem Closed.decodeAs_ne (hc : c.Closed) (h : c.Has type) (bytes : List UInt8) :
    (c.decodeAs type bytes).result ≠ .error (.unknownType name) := by
  have hread : Reader.Avoids (.unknownType name) (c.readWithin maxDepth (.one type)) :=
    hc.avoids_readWithin maxDepth (.one type) h
  have hread := hread (Cursor.start bytes)
  unfold Reader.Fails at hread
  unfold decodeAs readValue
  dsimp only
  split
  · rename_i e hresult
    rwa [hresult] at hread
  · split
    · nofun
    · nofun

end Values

end Catalog

end WireSchema
