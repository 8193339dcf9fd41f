import WireSchema.Attempt
import WireSchema.Proofs.Value.Canonical
import WireSchema.Proofs.Value.Document

/-! Bytes as documents and back. The parts of a value that was read are of the types that it was
read as, so it comes back from its document. So a document that bytes were shown as stands for a
value with the same document. -/

namespace WireSchema.Catalog

variable {c : Catalog} {d : Definition} {levels : Nat} {shape : Shape} {type : TypeRef}
  {v : Value} {j : Json}

/-! ### What was read -/

theorem typed_of_conforms (htype : ∀ index, type ≠ .definition index)
    (h : Conforms c (.one type) v) : Typed c (.one type) v := by
  cases h with
  | enum | struct | message => exact absurd rfl (htype _)
  | string => exact .string _
  | _ => constructor

/-- An object made of fields of a definition and values of their shapes. -/
theorem Valid.typed_object (hc : c.Valid) {index : Nat} (hd : c.definitions[index]? = some d)
    (hk : d.kind ≠ .enum) {qs : List (Field × Value)} (hfields : ∀ q ∈ qs, q.1 ∈ d.fields)
    (hqs : ∀ q ∈ qs, Typed c q.1.shape q.2 ∧ q.2.Ordered) :
    let v : Value := .object d.name (Table.ofPairs (qs.map fun q => (q.1.name, q.2)))
    Typed c (.one (.definition index)) v ∧ v.Ordered := by
  have hpair : ∀ p ∈ Table.ofPairs (qs.map fun q => (q.1.name, q.2)),
      ∃ q ∈ qs, (q.1.name, q.2) = p :=
    fun p hp => List.mem_map.mp (Table.mem_of_mem_ofPairs hp)
  refine ⟨.object hd hk (fun p hp => ?_) fun f hf v hv => ?_,
    Value.ordered_object_iff.mpr ⟨Table.sorted_ofPairs _, fun p hp => ?_⟩⟩
  · obtain ⟨q, hq, rfl⟩ := hpair p hp
    exact ⟨q.1, hfields q hq, rfl⟩
  · obtain ⟨⟨g, w⟩, hq, hgw⟩ := hpair _ hv
    obtain ⟨hname, rfl⟩ := Prod.mk.injEq .. ▸ hgw
    exact hc.field_eq (List.mem_of_getElem? hd) (hfields _ hq) hf hname ▸ (hqs _ hq).1
  · obtain ⟨q, hq, rfl⟩ := hpair p hp
    exact (hqs q hq).2

/-- What was read is of the type that it was read as, part by part. By induction on what can be
read. -/
theorem Valid.typed_of_readable (hc : c.Valid) (hv : Readable c levels shape v) :
    Typed c shape v ∧ v.Ordered := by
  induction hv with
  | primitive htype hconforms hdepth =>
    exact ⟨typed_of_conforms htype hconforms, Value.ordered_of_depth hdepth⟩
  | enum hd hk hf => exact ⟨.enum hd hk hf, Value.ordered_of_depth rfl⟩
  | struct hd hk hfst _ ih =>
    exact hc.typed_object hd (by simp [hk]) (fun q hq => hfst ▸ List.mem_map_of_mem hq) ih
  | message hd hk hfields _ ih =>
    exact hc.typed_object hd (by simp [hk]) (fun q hq => (hfields q hq).1) ih
  | array _ _ _ ih =>
    exact ⟨.array fun v hv => (ih v hv).1, Value.ordered_array_iff.mpr fun v hv => (ih v hv).2⟩

/-- What was read comes back from its document, taken as the type it was read as. -/
theorem Valid.ofJsonShape_of_toJson (hc : c.Valid) (hv : Readable c levels shape v)
    (hj : c.toJson v = .ok j) (field : String) : c.ofJsonShape j shape field = .ok v := by
  obtain ⟨htyped, hordered⟩ := hc.typed_of_readable hv
  exact htyped.ofJsonShape hordered hj field

/-! ### Documents and bytes -/

theorem decodeJson_eq_ok_iff {name : String} {bytes : List UInt8} :
    (c.decodeJson name bytes).result = .ok j ↔
    ∃ v, (c.decode name bytes).result = .ok v ∧ c.toJson v = .ok j := by
  simp only [decodeJson, valueOfBytes, valueToJson, Noted.result_bind_eq_ok,
    Noted.result_mapError_eq_ok, Noted.result_ofExcept, Except.mapError_eq_ok]

theorem encodeJson_eq_ok_iff {name : String} {bytes : List UInt8} :
    (c.encodeJson name j).result = .ok bytes ↔
    ∃ v, c.ofJson name j = .ok v ∧ (c.encode name v).result = .ok bytes := by
  simp only [encodeJson, valueOfJson, valueToBytes, Noted.result_bind_eq_ok,
    Noted.result_mapError_eq_ok, Noted.result_ofExcept, Except.mapError_eq_ok]

/-- Where bytes are shown as a document, the document can be written, as bytes that are shown as the
same document, its members in the same order. The bytes that it came from may have said more, or the
same in another way. -/
theorem encodeJson_of_decodeJson {s : Schema} (hc : s.compile.result = .ok c) {name : String}
    {bytes : List UInt8} (h : (c.decodeJson name bytes).result = .ok j) :
    ∃ bytes', (c.encodeJson name j).result = .ok bytes' ∧
      (c.decodeJson name bytes').result = .ok j := by
  have hvalid := Schema.valid_of_compile hc
  obtain ⟨v, hv, hj⟩ := decodeJson_eq_ok_iff.mp h
  obtain ⟨type, htype, hv⟩ := decode_eq_ok_iff.mp hv
  obtain ⟨cursor, hreads, -⟩ := decodeAs_eq_ok_iff.mp hv
  have hback : c.ofJson name j = .ok v := by
    rw [ofJson, htype]
    exact hvalid.ofJsonShape_of_toJson (readable_of_reads hreads) hj ""
  obtain ⟨bytes', hencode, hdecode⟩ := hvalid.exists_encodeAs_of_decodeAs hv
  refine ⟨bytes', encodeJson_eq_ok_iff.mpr ⟨v, hback, encode_eq_ok_iff.mpr ⟨type, htype, hencode⟩⟩,
    ?_⟩
  exact decodeJson_eq_ok_iff.mpr ⟨v, decode_eq_ok_iff.mpr ⟨type, htype, hdecode⟩, hj⟩

def gradeSchema : Schema :=
  ⟨none, [⟨"Grade", .none, .enum, [⟨"LOW", .none, none, false, false, 0⟩,
      ⟨"HIGH", .none, none, false, false, 5⟩]⟩,
    ⟨"Report", .none, .message, [⟨"weight", .none, some "float", false, false, 1⟩,
      ⟨"grade", .none, some "Grade", false, false, 2⟩,
      ⟨"marks", .none, some "int", true, false, 3⟩]⟩]⟩

/-- A message with a number, an entry of an enum and an array of numbers. -/
def gradeCatalog : Catalog :=
  ⟨[⟨"Grade", .enum, [⟨"LOW", .uint, false, false, 0⟩, ⟨"HIGH", .uint, false, false, 5⟩]⟩,
    ⟨"Report", .message, [⟨"weight", .float, false, false, 1⟩,
      ⟨"grade", .definition 0, false, false, 2⟩, ⟨"marks", .int, true, false, 3⟩]⟩]⟩

/-- Members against the order of their fields, and an unknown id: the document has the declared ones
in that order. -/
theorem encodeJson_of_decodeJson_grade :
    let j : Json := .object [("weight", .number (.real ⟨0⟩)), ("grade", .string "HIGH"),
      ("marks", .array [Json.int (-1)])]
    gradeSchema.compile.result = .ok gradeCatalog ∧
      (gradeCatalog.decodeJson "Report" [3, 1, 1, 9, 7, 2, 5, 1, 0, 0]).result = .ok j ∧
      ∃ bytes', (gradeCatalog.encodeJson "Report" j).result = .ok bytes' ∧
        (gradeCatalog.decodeJson "Report" bytes').result = .ok j := by
  intro j
  have hc : gradeSchema.compile.result = .ok gradeCatalog := by decide +kernel
  have hv : (gradeCatalog.decode "Report" [3, 1, 1, 9, 7, 2, 5, 1, 0, 0]).result =
      .ok (.object "Report" [("grade", .enum "Grade" "HIGH"), ("marks", .array [.int (-1)]),
        ("weight", .float ⟨0⟩)]) := rfl
  have h : (gradeCatalog.decodeJson "Report" [3, 1, 1, 9, 7, 2, 5, 1, 0, 0]).result = .ok j :=
    decodeJson_eq_ok_iff.mpr ⟨_, hv, rfl⟩
  exact ⟨hc, h, encodeJson_of_decodeJson hc h⟩

end WireSchema.Catalog
