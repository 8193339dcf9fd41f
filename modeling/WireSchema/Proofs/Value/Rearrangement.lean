import WireSchema.Proofs.Catalog.Binary
import WireSchema.Proofs.Catalog.Rearrangement
import WireSchema.Proofs.Value.Extension

/-! Reading and writing with a schema whose definitions, enums and messages have been put in another
order. All bytes are read alike. What is written of a message has its members in another order, and
comes back as the same value. -/

namespace WireSchema

namespace Catalog

/-! ### Reading with the same fields at other places -/

section Reading

variable {σ : Nat → Nat} {c c' : Catalog} {d d' : Definition} {index levels : Nat}
  {inner inner' : Shape → Reader DecodeError Value}

theorem Definition.Within.readStruct_eq (hwithin : d.Within σ d') (hk : d.kind = .struct)
    (hinner : ∀ f ∈ d.fields, inner' (f.shape.relocate σ) = inner f.shape) :
    readStruct inner' d' = readStruct inner d := by
  have hstep : ∀ f ∈ d.fields, ∀ members,
      (do return Table.insert (f.relocate σ).name (← inner' (f.relocate σ).shape) members) =
        (do return Table.insert f.name (← inner f.shape) members :
          Reader DecodeError (List (String × Value))) := by
    intro f hf members
    rw [Field.shape_relocate, hinner f hf, Field.name_relocate]
  rw [readStruct, readStruct, hwithin.struct hk, Reader.foldl_map, Reader.foldl_congr hstep,
    hwithin.name]

variable (h : c.Within σ c') (honto : c.Onto σ c') (hd : c.definitions[index]? = some d)
  (hd' : c'.definitions[σ index]? = some d') (hwithin : d.Within σ d')
include h honto hd hd' hwithin

theorem Within.fieldOfValue?_eq_map (hk : d.kind ≠ .struct) (value : UInt32) :
    d'.fieldOfValue? value = (d.fieldOfValue? value).map (Field.relocate σ) := by
  have hvalues := h.valid.values d (List.mem_of_getElem? hd) hk
  have hvalues' := h.valid'.values d' (List.mem_of_getElem? hd') (hwithin.kind ▸ hk)
  ext f'
  simp only [Definition.fieldOfValue?_eq_some_iff hvalues', Option.map_eq_some_iff,
    Definition.fieldOfValue?_eq_some_iff hvalues]
  constructor
  · rintro ⟨hf', rfl⟩
    obtain ⟨f, hf, rfl⟩ := honto hd hd' f' hf'
    exact ⟨f, ⟨hf, rfl⟩, rfl⟩
  · rintro ⟨f, ⟨hf, rfl⟩, rfl⟩
    exact ⟨hwithin.mem f hf, rfl⟩

theorem Within.readEntry_eq (hk : d.kind = .enum) : readEntry d' = readEntry d := by
  simp only [readEntry, h.fieldOfValue?_eq_map honto hd hd' hwithin (by simp [hk]), hwithin.name]
  congr 1
  funext value
  cases d.fieldOfValue? value <;> rfl

theorem Within.readMember_eq (hk : d.kind = .message)
    (hinner : ∀ f ∈ d.fields, inner' (f.shape.relocate σ) = inner f.shape) (id : UInt32)
    (members : List (String × Value)) :
    readMember inner' d' id members = readMember inner d id members := by
  rw [readMember, readMember, h.fieldOfValue?_eq_map honto hd hd' hwithin (by simp [hk]),
    hwithin.name]
  cases hf : d.fieldOfValue? id with
  | none => rfl
  | some f =>
    simp only [Option.map_some, Field.shape_relocate, hinner f (Definition.of_fieldOfValue? hf).1,
      Field.isDeprecated_relocate, Field.name_relocate]
    rfl

theorem Within.readMembers_eq (hk : d.kind = .message)
    (hinner : ∀ f ∈ d.fields, inner' (f.shape.relocate σ) = inner f.shape) (fuel : Nat)
    (members : List (String × Value)) :
    readMembers inner' d' fuel members = readMembers inner d fuel members := by
  induction fuel generalizing members with
  | zero => rfl
  | succ fuel ih => simp only [readMembers, h.readMember_eq honto hd hd' hwithin hk hinner, ih]

theorem Within.readMessage_eq (hk : d.kind = .message)
    (hinner : ∀ f ∈ d.fields, inner' (f.shape.relocate σ) = inner f.shape) :
    readMessage inner' d' = readMessage inner d := by
  simp only [readMessage, h.readMembers_eq honto hd hd' hwithin hk hinner, hwithin.name]

end Reading

variable {σ : Nat → Nat} {c c' : Catalog}

/-- With the same fields all bytes are read alike. By induction on the levels. -/
theorem Within.readWithin_eq (h : c.Within σ c') (honto : c.Onto σ c') (levels : Nat)
    {shape : Shape} (htype : c.Has shape.type) :
    c'.readWithin levels (shape.relocate σ) = c.readWithin levels shape := by
  induction levels generalizing shape with
  | zero =>
    rcases shape with (type | type)
    · cases type with
      | definition index =>
        obtain ⟨d, hd⟩ := htype.exists_getElem?
        obtain ⟨d', hd', hwithin⟩ := h.definition hd
        rw [Shape.relocate, TypeRef.relocate]
        by_cases hk : d.kind = .enum
        · rw [readWithin_enum hd hk, readWithin_enum hd' (hwithin.kind.trans hk),
            h.readEntry_eq honto hd hd' hwithin hk]
        · rw [readWithin_zero_definition hd hk, readWithin_zero_definition hd' (hwithin.kind ▸ hk)]
      | _ => rfl
    · rfl
  | succ levels ih =>
    rcases shape with (type | type)
    · cases type with
      | definition index =>
        obtain ⟨d, hd⟩ := htype.exists_getElem?
        obtain ⟨d', hd', hwithin⟩ := h.definition hd
        have hinner : ∀ f ∈ d.fields, c'.readWithin levels (f.shape.relocate σ) =
            c.readWithin levels f.shape :=
          fun f hf => ih (h.closed.has_field hd hf)
        rw [Shape.relocate, TypeRef.relocate, readWithin_succ_definition hd,
          readWithin_succ_definition hd', hwithin.kind]
        cases hk : d.kind with
        | enum => exact h.readEntry_eq honto hd hd' hwithin hk
        | struct => exact hwithin.readStruct_eq hk hinner
        | message => exact h.readMessage_eq honto hd hd' hwithin hk hinner
      | _ => rfl
    · have hcount : c'.readCount (type.relocate σ) = c.readCount type := h.readCount_eq htype
      have hitem : c'.readWithin levels (.one (type.relocate σ)) =
          c.readWithin levels (.one type) :=
        @ih (.one type) htype
      simp only [Shape.relocate, readWithin, readShape, hcount, hitem]

theorem Within.decodeAs_eq_of_onto (h : c.Within σ c') (honto : c.Onto σ c') {type : TypeRef}
    (htype : c.Has type) (bytes : List UInt8) :
    c'.decodeAs (type.relocate σ) bytes = c.decodeAs type bytes := by
  have hread : c'.readWithin maxDepth ((Shape.one type).relocate σ) =
      c.readWithin maxDepth (.one type) :=
    h.readWithin_eq honto maxDepth htype
  have hvalue : c'.readValue (type.relocate σ) = c.readValue type := hread
  rw [decodeAs, decodeAs, hvalue]

end Catalog

/-! ### Rearranged schemas -/

namespace Schema

open Catalog (encode_eq_ok_iff)

namespace Rearranges

variable {loose : List Kind} {s s' : Schema} {c c' : Catalog} {name : String} {v : Value}
  {bytes bytes' : List UInt8} (h : s.Rearranges loose s') (hloose : .struct ∉ loose)
  (hc : s.compile.result = .ok c) (hc' : s'.compile.result = .ok c')
include h hloose hc hc'

theorem catalog_within : c.Within (s.place s') c' := (h.within hloose hc').of_compile hc hc'

theorem decode_eq (name : String) (bytes : List UInt8) :
    c'.decode name bytes = c.decode name bytes := by
  rw [Catalog.decode, Catalog.decode, h.typeOf?_eq_map hloose hc hc']
  cases htype : c.typeOf? name with
  | none => rfl
  | some type =>
    have honto := h.onto hloose hc hc'
    exact (h.catalog_within hloose hc hc').decodeAs_eq_of_onto honto
      (Catalog.has_of_typeOf? htype) bytes

theorem exists_encode (hv : ∃ bytes, (c.encode name v).result = .ok bytes) :
    ∃ bytes, (c'.encode name v).result = .ok bytes := by
  obtain ⟨bytes, hv⟩ := hv
  obtain ⟨type, htype, hv⟩ := encode_eq_ok_iff.mp hv
  have hconforms := (h.catalog_within hloose hc hc').conforms (Catalog.encodeAs_eq_ok_iff.mp hv).1
  have htype' : c'.typeOf? name = some (type.relocate (s.place s')) := by
    rw [h.typeOf?_eq_map hloose hc hc', htype, Option.map_some]
  exact ⟨_, encode_eq_ok_iff.mpr ⟨_, htype', Catalog.encodeAs_eq_ok_iff.mpr ⟨hconforms, rfl⟩⟩⟩

theorem encodeAs_of_encode (hv : (c.encode name v).result = .ok bytes)
    (hv' : (c'.encode name v).result = .ok bytes') :
    ∃ type, c.typeOf? name = some type ∧ c'.typeOf? name = some (type.relocate (s.place s')) ∧
      (c.encodeAs type v).result = .ok bytes ∧
      (c'.encodeAs (type.relocate (s.place s')) v).result = .ok bytes' := by
  obtain ⟨type, htype, hv⟩ := encode_eq_ok_iff.mp hv
  obtain ⟨type', htype', hv'⟩ := encode_eq_ok_iff.mp hv'
  have heq : some type' = some (type.relocate (s.place s')) := by
    rw [← htype', h.typeOf?_eq_map hloose hc hc', htype, Option.map_some]
  rw [Option.some.inj heq] at htype' hv'
  exact ⟨type, htype, htype', hv, hv'⟩

theorem decode_encode_iff (hordered : v.Ordered) (hfit : v.ArraysFit)
    (hv : (c.encode name v).result = .ok bytes) (hv' : (c'.encode name v).result = .ok bytes')
    {w : Value} :
    (c'.decode name bytes').result = .ok w ↔ (c.decode name bytes).result = .ok w := by
  obtain ⟨type, htype, htype', hv, hv'⟩ := h.encodeAs_of_encode hloose hc hc' hv hv'
  rw [Catalog.decode, Catalog.decode, htype, htype']
  exact (h.catalog_within hloose hc hc').decodeAs_eq_ok_iff
    (Catalog.has_of_typeOf? htype) hordered hfit hv hv'

theorem encode_eq (hmessage : .message ∉ loose) (hv : (c.encode name v).result = .ok bytes)
    (hv' : (c'.encode name v).result = .ok bytes') : bytes' = bytes := by
  obtain ⟨type, -, -, hv, hv'⟩ := h.encodeAs_of_encode hloose hc hc' hv hv'
  have hbytes :=
    (h.catalog_within hloose hc hc').encodeAs_eq_ok (h.inOrder hloose hc hc' hmessage) hv
  exact Except.ok.inj (hv'.symm.trans hbytes)

end Rearranges

/-- Two schemas that differ in the order of definitions, of enum entries and of message fields are
compiled both or neither. Both read all bytes alike and write the same values, to bytes that come
back as the same value from either or from neither; and where messages have kept their order, to the
same bytes. -/
theorem compile_of_rearranges {s s' : Schema}
    (h : s.withoutPositions.Rearranges [.enum, .message] s'.withoutPositions) :
    ((∃ c, s.compile.result = .ok c) ↔ ∃ c', s'.compile.result = .ok c') ∧
    ∀ c c', s.compile.result = .ok c → s'.compile.result = .ok c' → ∀ name,
      (∀ bytes, c'.decode name bytes = c.decode name bytes) ∧
      ∀ v : Value, v.Ordered → v.ArraysFit →
        ((∃ bytes, (c.encode name v).result = .ok bytes) ↔
          ∃ bytes', (c'.encode name v).result = .ok bytes') ∧
        ∀ bytes bytes', (c.encode name v).result = .ok bytes →
          (c'.encode name v).result = .ok bytes' →
          (∀ w, (c'.decode name bytes').result = .ok w ↔ (c.decode name bytes).result = .ok w) ∧
          (s.withoutPositions.Rearranges [.enum] s'.withoutPositions → bytes' = bytes) := by
  have hloose : Kind.struct ∉ [Kind.enum, Kind.message] := by decide
  simp only [← compile_withoutPositions_iff (s := s), ← compile_withoutPositions_iff (s := s')]
  refine ⟨⟨h.exists_compile, h.symm.exists_compile⟩,
    fun c c' hc hc' name => ⟨h.decode_eq hloose hc hc' name, ?_⟩⟩
  intro v hordered hfit
  refine ⟨⟨h.exists_encode hloose hc hc', h.symm.exists_encode hloose hc' hc⟩,
    fun bytes bytes' hv hv' => ⟨?_, ?_⟩⟩
  · exact fun w => h.decode_encode_iff hloose hc hc' hordered hfit hv hv'
  · exact fun henums => henums.encode_eq (by decide) hc hc' (by decide) hv hv'

/-- A message and an enum have changed places, and so have the fields of both. -/
theorem compile_of_rearranges_pair :
    let s : Schema := ⟨none, [⟨"M", .first, .message, [⟨"x", .first, some "uint", false, false, 1⟩,
      ⟨"k", .first, some "K", false, false, 2⟩]⟩,
      ⟨"K", .first, .enum,
        [⟨"A", .first, none, false, false, 0⟩, ⟨"B", .first, none, false, false, 5⟩]⟩]⟩
    let s' : Schema := ⟨none, [
      ⟨"K", .first, .enum,
        [⟨"B", .first, none, false, false, 5⟩, ⟨"A", .first, none, false, false, 0⟩]⟩,
      ⟨"M", .first, .message, [⟨"k", .first, some "K", false, false, 2⟩,
        ⟨"x", .first, some "uint", false, false, 1⟩]⟩]⟩
    let v : Value := .object "M" [("k", .enum "K" "B"), ("x", .uint 7)]
    ∃ c c' : Catalog, s.compile.result = .ok c ∧ s'.compile.result = .ok c' ∧
      (c.encode "M" v).result = .ok [1, 7, 2, 5, 0] ∧
      (c'.encode "M" v).result = .ok [2, 5, 1, 7, 0] ∧
      (c.decode "M" [1, 7, 2, 5, 0]).result = .ok v ∧
      (c'.decode "M" [2, 5, 1, 7, 0]).result = .ok v ∧
      c'.decode "M" [2, 5, 2, 1] = c.decode "M" [2, 5, 2, 1] := by
  intro s s' v
  let m : Catalog.Definition :=
    ⟨"M", .message, [⟨"x", .uint, false, false, 1⟩, ⟨"k", .definition 1, false, false, 2⟩]⟩
  let m' : Catalog.Definition :=
    ⟨"M", .message, [⟨"k", .definition 0, false, false, 2⟩, ⟨"x", .uint, false, false, 1⟩]⟩
  let c : Catalog :=
    ⟨[m, ⟨"K", .enum, [⟨"A", .uint, false, false, 0⟩, ⟨"B", .uint, false, false, 5⟩]⟩]⟩
  let c' : Catalog :=
    ⟨[⟨"K", .enum, [⟨"B", .uint, false, false, 5⟩, ⟨"A", .uint, false, false, 0⟩]⟩, m']⟩
  have hc : s.compile.result = .ok c := by decide +kernel
  have hc' : s'.compile.result = .ok c' := by decide +kernel
  have hrearranges : s.withoutPositions.Rearranges [.enum, .message] s'.withoutPositions := by
    refine ⟨s'.withoutPositions.definitions.reverse, .cons ⟨rfl, rfl, .swap _ _ _, ?_⟩
      (.cons ⟨rfl, rfl, .swap _ _ _, ?_⟩ .nil), List.reverse_perm _⟩
    · exact fun hk => absurd hk (by decide)
    · exact fun hk => absurd hk (by decide)
  have hordered : v.Ordered := by
    refine Value.ordered_object_iff.mpr ⟨?_, ?_⟩
    · show List.Pairwise _ _
      decide +kernel
    · simp only [List.forall_mem_cons, List.not_mem_nil]
      exact ⟨Value.ordered_of_depth rfl, Value.ordered_of_depth rfl, by simp⟩
  have hfit : v.ArraysFit := by
    apply Value.arraysFit_object_iff.mpr
    simp only [List.forall_mem_cons, List.not_mem_nil]
    exact ⟨Value.arraysFit_of_depth rfl, Value.arraysFit_of_depth rfl, by simp⟩
  have hv : (c.encode "M" v).result = .ok [1, 7, 2, 5, 0] := by decide +kernel
  have hv' : (c'.encode "M" v).result = .ok [2, 5, 1, 7, 0] := by decide +kernel
  have hread : (c.decode "M" [1, 7, 2, 5, 0]).result = .ok v := rfl
  obtain ⟨hdecode, hencode⟩ := (compile_of_rearranges hrearranges).2 c c' hc hc' "M"
  have hback := ((hencode v hordered hfit).2 _ _ hv hv').1 v
  exact ⟨c, c', hc, hc', hv, hv', hread, hback.mpr hread, hdecode _⟩

end Schema

end WireSchema
