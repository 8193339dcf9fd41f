import WireSchema.Proofs.Value.Conformity

/-! How writing can fail: what each piece of writing needs so that it does not fail with a given
error. -/

namespace WireSchema.Catalog

open Writing (Avoids)

variable {c : Catalog} {d : Definition} {e : EncodeError} {members : List (String × Shape.Writer)}

theorem avoids_writeString {s : String} (h : Char.ofNat 0 ∈ s.toList → .zeroInString s ≠ e) :
    Avoids e (writeString s) := by
  unfold writeString
  split
  · rename_i hz
    exact Writing.avoids_fail_iff.mpr (h (by simpa using hz))
  · exact Writing.avoids_bytes _ _

theorem avoids_writeEntry {entry : String}
    (h : d.field? entry = none → .unknownEntry d.name entry ≠ e) :
    Avoids e (writeEntry d entry) := by
  unfold writeEntry
  split
  · exact Writing.avoids_bytes _ _
  · exact Writing.avoids_fail_iff.mpr (h ‹_›)

theorem avoids_checkMembers
    (h : ∀ m ∈ members, (∀ f ∈ d.fields, f.name ≠ m.1) → .unknownField d.name m.1 ≠ e) :
    Avoids e (checkMembers d members) := by
  unfold checkMembers
  split
  · rename_i m hm
    have hnone := List.find?_some hm
    refine Writing.avoids_fail_iff.mpr (h m (List.mem_of_find?_eq_some hm) ?_)
    exact Definition.indexOfName?_eq_none_iff.mp (Option.isNone_iff_eq_none.mp hnone)
  · exact Writing.avoids_empty _

theorem avoids_writeStructField {f : Field}
    (hnone : Table.get? f.name members = none → .missingField d.name f.name ≠ e)
    (h : ∀ write, Table.get? f.name members = some write → Avoids e (write f.shape)) :
    Avoids e (writeStructField d members f) := by
  unfold writeStructField
  split
  · exact h _ ‹_›
  · exact Writing.avoids_fail_iff.mpr (hnone ‹_›)

theorem avoids_writeMessageField {f : Field} (h : f.isDeprecated = false →
    ∀ write, Table.get? f.name members = some write → Avoids e (write f.shape)) :
    Avoids e (writeMessageField d members f) := by
  unfold writeMessageField
  split
  · split
    · exact Writing.avoids_note _ _
    · rename_i hdep
      exact (Writing.avoids_bytes _ _).append (h (Bool.eq_false_iff.mpr hdep) _ ‹_›)
  · exact Writing.avoids_empty _

/-- An object fails as a member that is no field, as a field that a struct lacks, or as one of its
members. -/
theorem avoids_writeObject
    (hcheck : ∀ m ∈ members, (∀ f ∈ d.fields, f.name ≠ m.1) → .unknownField d.name m.1 ≠ e)
    (hnone : d.kind = .struct → ∀ f ∈ d.fields, Table.get? f.name members = none →
      .missingField d.name f.name ≠ e)
    (h : ∀ f ∈ d.fields, (d.kind = .message → f.isDeprecated = false) →
      ∀ write, Table.get? f.name members = some write → Avoids e (write f.shape)) :
    Avoids e (writeObject d members) := by
  unfold writeObject
  split
  · rename_i hk
    refine (avoids_checkMembers hcheck).append
      (Writing.avoids_concat (List.forall_mem_map.mpr fun f hf => ?_))
    exact avoids_writeStructField (hnone hk f hf) (h f hf (by simp [hk]))
  · refine (avoids_checkMembers hcheck).append (Writing.Avoids.append ?_ (Writing.avoids_bytes _ _))
    refine Writing.avoids_concat (List.forall_mem_map.mpr fun f hf => ?_)
    exact avoids_writeMessageField fun hdep => h f hf fun _ => hdep
  · exact Writing.avoids_empty _

end WireSchema.Catalog
