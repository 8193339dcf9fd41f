import WireSchema.Proofs.Catalog.Binary
import WireSchema.Proofs.Catalog.Resolution
import WireSchema.Proofs.Value.Relocation

/-! Schemas that have grown: definitions have been added behind the others, and fields to messages.
What is written with the older schema is written with the newer one too, as the same bytes, and both
read these alike. -/

namespace WireSchema

namespace Schema

variable {s s' : Schema} {d d' : Definition}

/-- The same definition, but for more fields between its own if it is a message. -/
structure Definition.Extends (d d' : Definition) : Prop where
  name : d'.name = d.name
  kind : d'.kind = d.kind
  fields : d.fields.Sublist d'.fields
  fixed : d.kind ≠ .message → d'.fields = d.fields

/-- The definitions of `s` stand at the head of those of `s'`, each of them extended. -/
def Extends (s s' : Schema) : Prop :=
  ∃ ds, ds <+: s'.definitions ∧ List.Forall₂ Definition.Extends s.definitions ds

theorem Definition.Extends.within (h : d.Extends d') : d.Within d' where
  name := h.name
  kind := h.kind
  mem _ hf := h.fields.subset hf
  struct hk := h.fixed (by simp [hk])

theorem Extends.exists_getElem? (h : s.Extends s') {index : Nat}
    (hd : s.definitions[index]? = some d) :
    ∃ d', s'.definitions[index]? = some d' ∧ d.Extends d' := by
  obtain ⟨ds, ⟨more, hmore⟩, hall⟩ := h
  obtain ⟨hlength, hget⟩ := List.forall₂_iff_get.mp hall
  obtain ⟨hindex, rfl⟩ := List.getElem?_eq_some_iff.mp hd
  refine ⟨ds[index], ?_, hget index hindex (hlength ▸ hindex)⟩
  rw [← hmore, List.getElem?_append_left (hlength ▸ hindex), List.getElem?_eq_getElem]

theorem Extends.within (h : s.Extends s') : s.Within (fun index => index) s' := fun _ _ hd =>
  (h.exists_getElem? hd).imp fun _ hd' => ⟨hd'.1, hd'.2.within⟩

end Schema

namespace Catalog

variable {c c' : Catalog} {name : String} {v : Value} {bytes : List UInt8}

/-- A value that can be written with a schema can be written with any that extends it, as the same
bytes; and the bytes are read alike with both, whether they are read or not. -/
theorem encode_of_extends {o n : Schema} (ho : o.compile.result = .ok c)
    (hn : n.compile.result = .ok c') (h : o.withoutPositions.Extends n.withoutPositions)
    (hfit : v.ArraysFit) (hv : (c.encode name v).result = .ok bytes) :
    (c'.encode name v).result = .ok bytes ∧ c'.decode name bytes = c.decode name bytes := by
  replace ho := Schema.compile_withoutPositions_iff.mpr ho
  replace hn := Schema.compile_withoutPositions_iff.mpr hn
  have hwithin : c.Within (fun index => index) c' := h.within.of_compile ho hn
  have horder : InOrder (fun index => index) c c' := by
    refine h.within.inOrder_of_compile ho hn fun index d d' hd hd' _ => ?_
    obtain ⟨_, hd₁, hextends⟩ := h.exists_getElem? hd
    obtain rfl := Option.some.inj (hd₁.symm.trans hd')
    exact hextends.fields
  obtain ⟨type, htype, hv⟩ := encode_eq_ok_iff.mp hv
  have htype' : c'.typeOf? name = some type := by
    rw [h.within.typeOf?_compile ho hn htype, TypeRef.relocate_self]
  have hencode := hwithin.encodeAs_eq_ok horder hv
  have hdecode := hwithin.decodeAs_eq (has_of_typeOf? htype) hfit hv
  rw [TypeRef.relocate_self] at hencode hdecode
  refine ⟨encode_eq_ok_iff.mpr ⟨type, htype', hencode⟩, ?_⟩
  rw [decode, decode, htype, htype']
  exact hdecode

/-- The newer schema has a struct with a list of messages between the two fields of a message, and
an enum behind it. -/
theorem encode_of_extends_message :
    let o : Schema := ⟨none, [⟨"M", .first, .message, [⟨"x", .first, some "uint", false, false, 1⟩,
      ⟨"parts", .first, some "M", true, false, 3⟩]⟩]⟩
    let n : Schema := ⟨none, [⟨"M", .none, .message, [⟨"x", .none, some "uint", false, false, 1⟩,
      ⟨"pair", .none, some "Pair", false, false, 2⟩, ⟨"parts", .none, some "M", true, false, 3⟩]⟩,
      ⟨"Pair", .none, .struct, [⟨"kind", .none, some "Kind", false, false, 1⟩,
        ⟨"all", .none, some "M", true, false, 2⟩]⟩,
      ⟨"Kind", .none, .enum, [⟨"A", .none, none, false, false, 0⟩]⟩]⟩
    let v : Value := .object "M" [("parts", .array [.object "M" []]), ("x", .uint 7)]
    ∃ c c' : Catalog, o.compile.result = .ok c ∧ n.compile.result = .ok c' ∧
      (c.encode "M" v).result = .ok [1, 7, 3, 1, 0, 0] ∧
      (c'.encode "M" v).result = .ok [1, 7, 3, 1, 0, 0] ∧
      c'.decode "M" [1, 7, 3, 1, 0, 0] = c.decode "M" [1, 7, 3, 1, 0, 0] ∧
      (c.decode "M" [1, 7, 3, 1, 0, 0]).result = .ok v := by
  intro o n v
  let c : Catalog :=
    ⟨[⟨"M", .message, [⟨"x", .uint, false, false, 1⟩, ⟨"parts", .definition 0, true, false, 3⟩]⟩]⟩
  let c' : Catalog :=
    ⟨[⟨"M", .message, [⟨"x", .uint, false, false, 1⟩, ⟨"pair", .definition 1, false, false, 2⟩,
        ⟨"parts", .definition 0, true, false, 3⟩]⟩,
      ⟨"Pair", .struct,
        [⟨"kind", .definition 2, false, false, 1⟩, ⟨"all", .definition 0, true, false, 2⟩]⟩,
      ⟨"Kind", .enum, [⟨"A", .uint, false, false, 0⟩]⟩]⟩
  have ho : o.compile.result = .ok c := by decide +kernel
  have hn : n.compile.result = .ok c' := by decide +kernel
  have hextends : o.withoutPositions.Extends n.withoutPositions := by
    refine ⟨[_], ⟨_, rfl⟩, .cons ⟨rfl, rfl, ?_, fun hk => absurd rfl hk⟩ .nil⟩
    exact (List.Sublist.refl _).cons _ |>.cons_cons _
  have hfit : v.ArraysFit := by
    have hempty : (Value.object "M" []).ArraysFit := Value.arraysFit_object_iff.mpr (by simp)
    apply Value.arraysFit_object_iff.mpr
    simp only [List.forall_mem_cons, List.not_mem_nil, Value.arraysFit_array_iff, hempty]
    exact ⟨by simp, Value.arraysFit_of_depth rfl, by simp⟩
  have hencode : (c.encode "M" v).result = .ok [1, 7, 3, 1, 0, 0] := by decide +kernel
  obtain ⟨hencode', hdecode⟩ := encode_of_extends ho hn hextends hfit hencode
  exact ⟨c, c', ho, hn, hencode, hencode', hdecode, rfl⟩

end Catalog

end WireSchema
