import WireSchema.Proofs.Value.RoundTrip

/-! Values that are read, from whatever bytes. Each conforms to the shape it was read as, keeps to
the limits of reading and is its own normal form. So it can be written, and what is written is read
as the same value again. -/

namespace WireSchema.Catalog

open Reader (Reads Answers)

variable {c : Catalog} {d : Definition} {levels : Nat} {inner : Shape → Reader DecodeError Value}

/-- What reading answers, at a shape and so many levels: a value that can be written, and comes back
from that as it is. -/
structure Canonical (c : Catalog) (levels : Nat) (shape : Shape) (v : Value) : Prop where
  conforms : Conforms c shape v
  ordered : v.Ordered
  arraysFit : v.ArraysFit
  fits : c.Fits levels shape v
  normal : c.normal v = v

theorem canonical_of_depth {type : TypeRef} {v : Value} (h : Conforms c (.one type) v)
    (hv : v.depth = 0) (hnormal : c.normal v = v) : c.Canonical levels (.one type) v :=
  ⟨h, Value.ordered_of_depth hv, Value.arraysFit_of_depth hv, fits_of_depth hv, hnormal⟩

theorem canonical_array {type : TypeRef} {items : List Value} (hlength : items.length < 2 ^ 32)
    (hzero : c.isZeroWidth type = true → items.length ≤ maxZeroWidthLength)
    (h : ∀ v ∈ items, c.Canonical levels (.one type) v) :
    c.Canonical (levels + 1) (.many type) (.array items) where
  conforms := .array fun v hv => (h v hv).conforms
  ordered := Value.ordered_array_iff.mpr fun v hv => (h v hv).ordered
  arraysFit := Value.arraysFit_array_iff.mpr ⟨hlength, fun v hv => (h v hv).arraysFit⟩
  fits := fits_array_iff.mpr ⟨hzero, fun v hv => (h v hv).fits⟩
  normal := by
    rw [normal_array, List.map_congr_left fun v hv => (h v hv).normal, List.map_id']

/-- An object made of fields of a definition and values of their shapes. -/
theorem Valid.canonical_object (hc : c.Valid) {index : Nat} (hd : c.definitions[index]? = some d)
    (hk : d.kind ≠ .enum) {qs : List (Field × Value)}
    (hqs : ∀ q ∈ qs, q.1 ∈ d.fields ∧ (d.kind = .message → q.1.isDeprecated = false) ∧
      c.Canonical levels q.1.shape q.2)
    (hpresent : d.kind = .struct → qs.map Prod.fst = d.fields) :
    c.Canonical (levels + 1) (.one (.definition index))
      (.object d.name (Table.ofPairs (qs.map fun q => (q.1.name, q.2)))) := by
  have hd' := List.mem_of_getElem? hd
  generalize hms : Table.ofPairs (qs.map fun q => (q.1.name, q.2)) = ms
  have hsorted : Table.Sorted ms := hms ▸ Table.sorted_ofPairs _
  have hmem : ∀ p ∈ ms, ∃ f ∈ d.fields, f.name = p.1 ∧
      (d.kind = .message → f.isDeprecated = false) ∧ c.Canonical levels f.shape p.2 := by
    intro p hp
    obtain ⟨q, hq, rfl⟩ := List.mem_map.mp (Table.mem_of_mem_ofPairs (hms ▸ hp))
    exact ⟨q.1, (hqs q hq).1, rfl, (hqs q hq).2⟩
  have hdeclared : ∀ p ∈ ms, ∃ f ∈ d.fields, f.name = p.1 := fun p hp => by
    obtain ⟨f, hf, hname, -⟩ := hmem p hp
    exact ⟨f, hf, hname⟩
  have hfield : ∀ f ∈ d.fields, ∀ v, (f.name, v) ∈ ms → c.Canonical levels f.shape v := by
    intro f hf v hv
    obtain ⟨g, hg, hname, -, hcanonical⟩ := hmem _ hv
    exact hc.field_eq hd' hg hf hname ▸ hcanonical
  constructor
  case conforms =>
    have hconforms := fun f hf v hv => (hfield f hf v (Table.mem_of_get? hv)).conforms
    cases hkind : d.kind with
    | enum => exact absurd hkind hk
    | message => exact .message hd hkind hdeclared fun f hf _ => hconforms f hf
    | struct =>
      refine .struct hd hkind hdeclared (fun f hf => ?_) hconforms
      rw [← hpresent hkind] at hf
      obtain ⟨q, hq, rfl⟩ := List.mem_map.mp hf
      rw [← hms]
      exact Table.isSome_get?_ofPairs (List.mem_map.mpr ⟨_, List.mem_map_of_mem hq, rfl⟩)
  case ordered =>
    refine Value.ordered_object_iff.mpr ⟨hsorted, fun p hp => ?_⟩
    obtain ⟨_, -, -, -, h⟩ := hmem p hp
    exact h.ordered
  case arraysFit =>
    apply Value.arraysFit_object_iff.mpr
    intro p hp
    obtain ⟨_, -, -, -, h⟩ := hmem p hp
    exact h.arraysFit
  case fits =>
    refine ⟨Value.depth_object_le_iff.mpr fun p hp => ?_, countFits_one _ _, ?_⟩
    · obtain ⟨_, -, -, -, h⟩ := hmem p hp
      exact h.fits.depth
    · refine (hc.countsFit_object_iff hd').mpr ⟨fun f hf w hw => (hfield f hf w hw).fits.count, ?_⟩
      intro p hp
      obtain ⟨_, -, -, -, h⟩ := hmem p hp
      exact h.fits.counts
  case normal =>
    have hkept : ms.filter (fun p => !c.drops d.name p.1) = ms := by
      apply List.filter_eq_self.mpr
      intro p hp
      obtain ⟨f, hf, hname, hdep, -⟩ := hmem p hp
      rw [Bool.not_eq_true', Bool.eq_false_iff, ← hname]
      intro hdrops
      obtain ⟨hkind, htrue⟩ := (hc.drops_eq hd' hf).mp hdrops
      simp [hdep hkind] at htrue
    have hsame : ∀ p ∈ ms, (p.1, c.normal p.2) = p := fun p hp => by
      obtain ⟨_, -, -, -, h⟩ := hmem p hp
      rw [h.normal]
    rw [Catalog.normal, normalMembers_eq, hkept, List.map_congr_left hsame, List.map_id']

/-! ### What is read -/

/-- A struct is read as its fields with values that were read. -/
theorem of_reads_readStruct {cur cur' : Cursor} {v : Value}
    (h : Reads (readStruct inner d) cur v cur') : ∃ qs : List (Field × Value),
      qs.map Prod.fst = d.fields ∧ (∀ q ∈ qs, Answers (inner q.1.shape) q.2) ∧
        v = .object d.name (Table.ofPairs (qs.map fun q => (q.1.name, q.2))) := by
  obtain ⟨members, cur₁, hmembers, h⟩ := Reader.reads_bind.mp h
  obtain ⟨rfl, -⟩ := Reader.reads_pure.mp h
  suffices ∀ (fields : List Field) (t : List (String × Value)) {cur : Cursor},
      Reads (Reader.foldl (fun members (f : Field) =>
        return Table.insert f.name (← inner f.shape) members) fields t) cur members cur₁ →
      ∃ qs : List (Field × Value), qs.map Prod.fst = fields ∧
        (∀ q ∈ qs, Answers (inner q.1.shape) q.2) ∧
        members = qs.foldl (fun t q => Table.insert q.1.name q.2 t) t by
    obtain ⟨qs, hfst, hqs, rfl⟩ := this d.fields [] hmembers
    exact ⟨qs, hfst, hqs, by rw [Table.ofPairs, List.foldl_map]⟩
  intro fields
  clear hmembers
  induction fields with
  | nil =>
    intro t cur h
    obtain ⟨rfl, -⟩ := Reader.reads_pure.mp h
    exact ⟨[], rfl, by simp, rfl⟩
  | cons f fields ih =>
    intro t cur h
    obtain ⟨t', cur₂, hf, h⟩ := Reader.reads_bind.mp h
    obtain ⟨v, cur₃, hv, hf⟩ := Reader.reads_bind.mp hf
    obtain ⟨rfl, -⟩ := Reader.reads_pure.mp hf
    obtain ⟨qs, rfl, hqs, rfl⟩ := ih _ h
    exact ⟨(f, v) :: qs, rfl, List.forall_mem_cons.mpr ⟨⟨_, _, hv⟩, hqs⟩, rfl⟩

/-- One member of a message puts in a value of a field that is not deprecated, or nothing. -/
theorem of_reads_readMember {id : UInt32} {members members' : List (String × Value)}
    {cur cur' : Cursor} (h : Reads (readMember inner d id members) cur members' cur') :
    members' = members ∨ ∃ f v, f ∈ d.fields ∧ f.isDeprecated = false ∧
      Answers (inner f.shape) v ∧ members' = Table.insert f.name v members := by
  rw [readMember] at h
  cases hf : d.fieldOfValue? id with
  | none =>
    simp only [hf] at h
    obtain ⟨_, _, -, h⟩ := Reader.reads_bind.mp h
    obtain ⟨_, _, -, h⟩ := Reader.reads_bind.mp h
    obtain ⟨rfl, -⟩ := Reader.reads_pure.mp h
    exact .inl rfl
  | some f =>
    simp only [hf] at h
    obtain ⟨v, cur₁, hv, h⟩ := Reader.reads_bind.mp h
    split at h
    · obtain ⟨_, _, -, h⟩ := Reader.reads_bind.mp h
      obtain ⟨rfl, -⟩ := Reader.reads_pure.mp h
      exact .inl rfl
    · rename_i hdep
      obtain ⟨rfl, -⟩ := Reader.reads_pure.mp h
      exact .inr ⟨f, v, (Definition.of_fieldOfValue? hf).1, by simpa using hdep, ⟨_, _, hv⟩, rfl⟩

/-- A message is read as some of its fields, none of them deprecated, with values that were read. -/
theorem of_reads_readMessage {cur cur' : Cursor} {v : Value}
    (h : Reads (readMessage inner d) cur v cur') : ∃ qs : List (Field × Value),
      (∀ q ∈ qs, q.1 ∈ d.fields ∧ q.1.isDeprecated = false ∧ Answers (inner q.1.shape) q.2) ∧
        v = .object d.name (Table.ofPairs (qs.map fun q => (q.1.name, q.2))) := by
  obtain ⟨here, cur₁, -, h⟩ := Reader.reads_bind.mp h
  obtain ⟨members, cur₂, hmembers, h⟩ := Reader.reads_bind.mp h
  obtain ⟨rfl, -⟩ := Reader.reads_pure.mp h
  suffices ∀ (fuel : Nat) (t : List (String × Value)) {cur : Cursor},
      Reads (readMembers inner d fuel t) cur members cur₂ → ∃ qs : List (Field × Value),
        (∀ q ∈ qs, q.1 ∈ d.fields ∧ q.1.isDeprecated = false ∧ Answers (inner q.1.shape) q.2) ∧
        members = qs.foldl (fun t q => Table.insert q.1.name q.2 t) t by
    obtain ⟨qs, hqs, rfl⟩ := this here.remaining [] hmembers
    exact ⟨qs, hqs, by rw [Table.ofPairs, List.foldl_map]⟩
  intro fuel
  clear hmembers
  induction fuel with
  | zero =>
    intro t cur h
    obtain ⟨_, _, -, h⟩ := Reader.reads_bind.mp h
    obtain ⟨rfl, -⟩ := Reader.reads_pure.mp h
    exact ⟨[], by simp, rfl⟩
  | succ fuel ih =>
    intro t cur h
    obtain ⟨id, cur₃, -, h⟩ := Reader.reads_bind.mp h
    split at h
    · obtain ⟨rfl, -⟩ := Reader.reads_pure.mp h
      exact ⟨[], by simp, rfl⟩
    · obtain ⟨t', cur₄, hmember, h⟩ := Reader.reads_bind.mp h
      obtain ⟨qs, hqs, rfl⟩ := ih _ h
      rcases of_reads_readMember hmember with rfl | ⟨f, v, hf, hdep, hv, rfl⟩
      · exact ⟨qs, hqs, rfl⟩
      · exact ⟨(f, v) :: qs, List.forall_mem_cons.mpr ⟨⟨hf, hdep, hv⟩, hqs⟩, rfl⟩

theorem of_reads_readCount {type : TypeRef} {n : Nat} {cur cur' : Cursor}
    (h : Reads (c.readCount type) cur n cur') :
    n < 2 ^ 32 ∧ (c.isZeroWidth type = true → n ≤ maxZeroWidthLength) := by
  obtain ⟨count, cur₁, -, h⟩ := Reader.reads_bind.mp h
  obtain ⟨here, cur₂, -, h⟩ := Reader.reads_bind.mp h
  have hn : count.toNat = n ∧ (c.isZeroWidth type = true → count.toNat ≤ maxZeroWidthLength) := by
    by_cases hz : c.isZeroWidth type = true
    · by_cases hlong : maxZeroWidthLength < count.toNat
      · simp [hz, hlong] at h
      · simp [hz, hlong] at h
        exact ⟨h.1, fun _ => Nat.le_of_not_lt hlong⟩
    · by_cases hshort : here.remaining < count.toNat
      · simp [hz, hshort] at h
      · simp [hz, hshort] at h
        exact ⟨h.1, fun hz' => absurd hz' hz⟩
  obtain ⟨rfl, hzero⟩ := hn
  exact ⟨count.toNat_lt, hzero⟩

theorem of_reads_readEntry {cur cur' : Cursor} {v : Value} (h : Reads (readEntry d) cur v cur') :
    ∃ f ∈ d.fields, v = .enum d.name f.name := by
  obtain ⟨value, cur₁, -, h⟩ := Reader.reads_bind.mp h
  cases hf : d.fieldOfValue? value with
  | none => simp [hf] at h
  | some f =>
    simp only [hf] at h
    obtain ⟨rfl, -⟩ := Reader.reads_pure.mp h
    exact ⟨f, (Definition.of_fieldOfValue? hf).1, rfl⟩

/-- A primitive is read as a value of its type, a text without a zero and a float that writing
keeps. -/
theorem of_reads_primitive {type : TypeRef} {cur cur' : Cursor} {v : Value}
    (htype : ∀ index, type ≠ .definition index)
    (h : Reads (c.readWithin levels (.one type)) cur v cur') :
    Conforms c (.one type) v ∧ v.depth = 0 ∧ c.normal v = v := by
  obtain ⟨inner, h⟩ : ∃ inner, Reads (c.readShape inner (.one type)) cur v cur' := by
    cases levels with
    | zero => exact ⟨_, h⟩
    | succ levels => exact ⟨_, h⟩
  cases type with
  | definition index => exact absurd rfl (htype index)
  | bool =>
    obtain ⟨b, _, -, h⟩ := Reader.reads_bind.mp h
    obtain ⟨rfl, -⟩ := Reader.reads_pure.mp h
    exact ⟨.bool b, rfl, rfl⟩
  | byte =>
    obtain ⟨b, _, -, h⟩ := Reader.reads_bind.mp h
    obtain ⟨rfl, -⟩ := Reader.reads_pure.mp h
    exact ⟨.byte b, rfl, rfl⟩
  | int =>
    obtain ⟨n, _, -, h⟩ := Reader.reads_bind.mp h
    obtain ⟨rfl, -⟩ := Reader.reads_pure.mp h
    exact ⟨.int n, rfl, rfl⟩
  | uint =>
    obtain ⟨n, _, -, h⟩ := Reader.reads_bind.mp h
    obtain ⟨rfl, -⟩ := Reader.reads_pure.mp h
    exact ⟨.uint n, rfl, rfl⟩
  | float =>
    obtain ⟨x, _, hx, h⟩ := Reader.reads_bind.mp h
    obtain ⟨rfl, -⟩ := Reader.reads_pure.mp h
    refine ⟨.float x, rfl, ?_⟩
    rw [normal, Reader.flush_of_reads_float (Reader.reads_mapError.mp hx)]
  | string =>
    obtain ⟨s, _, hs, h⟩ := Reader.reads_bind.mp h
    obtain ⟨rfl, -⟩ := Reader.reads_pure.mp h
    exact ⟨.string (Reader.zero_notMem_of_reads_string (Reader.reads_mapError.mp hs)), rfl, rfl⟩

/-- What can be read of a shape at a level: the containers of it have parts that can be read one
level deeper, a struct a part for each field in order, a message parts for some of its fields that
are not deprecated. -/
inductive Readable (c : Catalog) : Nat → Shape → Value → Prop
  | primitive {levels : Nat} {type : TypeRef} {v : Value}
      (htype : ∀ index, type ≠ .definition index) (hconforms : Conforms c (.one type) v)
      (hdepth : v.depth = 0) (hnormal : c.normal v = v) :
      Readable c levels (.one type) v
  | enum {levels index : Nat} {d : Definition} {f : Field} (hd : c.definitions[index]? = some d)
      (hk : d.kind = .enum) (hf : f ∈ d.fields) :
      Readable c levels (.one (.definition index)) (.enum d.name f.name)
  | struct {levels index : Nat} {d : Definition} {qs : List (Field × Value)}
      (hd : c.definitions[index]? = some d) (hk : d.kind = .struct)
      (hfst : qs.map Prod.fst = d.fields) (hqs : ∀ q ∈ qs, Readable c levels q.1.shape q.2) :
      Readable c (levels + 1) (.one (.definition index))
        (.object d.name (Table.ofPairs (qs.map fun q => (q.1.name, q.2))))
  | message {levels index : Nat} {d : Definition} {qs : List (Field × Value)}
      (hd : c.definitions[index]? = some d) (hk : d.kind = .message)
      (hfields : ∀ q ∈ qs, q.1 ∈ d.fields ∧ q.1.isDeprecated = false)
      (hqs : ∀ q ∈ qs, Readable c levels q.1.shape q.2) :
      Readable c (levels + 1) (.one (.definition index))
        (.object d.name (Table.ofPairs (qs.map fun q => (q.1.name, q.2))))
  | array {levels : Nat} {type : TypeRef} {items : List Value} (hlength : items.length < 2 ^ 32)
      (hzero : c.isZeroWidth type = true → items.length ≤ maxZeroWidthLength)
      (hitems : ∀ v ∈ items, Readable c levels (.one type) v) :
      Readable c (levels + 1) (.many type) (.array items)

section Runs

variable {index : Nat} {type : TypeRef} {cur cur' : Cursor} {v : Value}

theorem exists_definition_of_reads
    (h : Reads (c.readWithin levels (.one (.definition index))) cur v cur') :
    ∃ d, c.definitions[index]? = some d := by
  cases hd : c.definitions[index]? with
  | some d => exact ⟨d, rfl⟩
  | none =>
    cases levels <;>
    · simp only [readWithin, readShape, hd] at h
      exact absurd h Reader.not_reads_fail

theorem readable_of_reads_primitive (htype : ∀ index, type ≠ .definition index)
    (h : Reads (c.readWithin levels (.one type)) cur v cur') : Readable c levels (.one type) v := by
  obtain ⟨hconforms, hdepth, hnormal⟩ := of_reads_primitive htype h
  exact .primitive htype hconforms hdepth hnormal

theorem readable_of_reads_enum (hd : c.definitions[index]? = some d) (hk : d.kind = .enum)
    (h : Reads (c.readWithin levels (.one (.definition index))) cur v cur') :
    Readable c levels (.one (.definition index)) v := by
  rw [readWithin_enum hd hk] at h
  obtain ⟨f, hf, rfl⟩ := of_reads_readEntry h
  exact .enum hd hk hf

/-- A container is readable if what is read one level deeper is. -/
theorem readable_succ_of_reads {shape : Shape}
    (ih : ∀ {shape v}, Answers (c.readWithin levels shape) v → Readable c levels shape v)
    (h : Reads (c.readWithin (levels + 1) shape) cur v cur') : Readable c (levels + 1) shape v := by
  cases shape with
  | many type =>
    obtain ⟨n, _, hn, h⟩ := Reader.reads_bind.mp h
    obtain ⟨items, _, hitems, h⟩ := Reader.reads_bind.mp h
    obtain ⟨rfl, -⟩ := Reader.reads_pure.mp h
    obtain ⟨hlt, hzero⟩ := of_reads_readCount hn
    obtain ⟨rfl, hall⟩ := Reader.reads_times hitems
    exact .array hlt hzero fun v hv => ih (hall v hv)
  | one type =>
    cases type with
    | definition index =>
      obtain ⟨d, hd⟩ := exists_definition_of_reads h
      cases hk : d.kind with
      | enum => exact readable_of_reads_enum hd hk h
      | struct =>
        rw [readWithin_succ_definition hd, hk] at h
        obtain ⟨qs, hfst, hqs, rfl⟩ := of_reads_readStruct h
        exact .struct hd hk hfst fun q hq => ih (hqs q hq)
      | message =>
        rw [readWithin_succ_definition hd, hk] at h
        obtain ⟨qs, hqs, rfl⟩ := of_reads_readMessage h
        exact .message hd hk (fun q hq => ⟨(hqs q hq).1, (hqs q hq).2.1⟩) fun q hq =>
          ih (hqs q hq).2.2
    | _ => exact readable_of_reads_primitive (by simp) h

/-- By induction on the levels, taking the run apart. -/
theorem readable_of_reads {shape : Shape} (h : Reads (c.readWithin levels shape) cur v cur') :
    Readable c levels shape v := by
  induction levels generalizing shape cur cur' v with
  | zero =>
    cases shape with
    | many type => exact absurd h Reader.not_reads_fail
    | one type =>
      cases type with
      | definition index =>
        obtain ⟨d, hd⟩ := exists_definition_of_reads h
        by_cases hk : d.kind = .enum
        · exact readable_of_reads_enum hd hk h
        · exact absurd (fails_readWithin_zero hd hk cur) h.not_fails
      | _ => exact readable_of_reads_primitive (by simp) h
  | succ levels ih =>
    refine readable_succ_of_reads ?_ h
    rintro shape v ⟨_, _, hread⟩
    exact ih hread

end Runs

/-- Whatever is read can be written, and comes back from that as it is. -/
theorem Valid.canonical_of_reads (hc : c.Valid) {shape : Shape} {cur cur' : Cursor} {v : Value}
    (h : Reads (c.readWithin levels shape) cur v cur') : c.Canonical levels shape v := by
  have hreadable := readable_of_reads h
  clear h
  induction hreadable with
  | primitive _ hconforms hdepth hnormal => exact canonical_of_depth hconforms hdepth hnormal
  | enum hd hk hf =>
    exact canonical_of_depth (.enum hd hk (hc.field?_name (List.mem_of_getElem? hd) hf)) rfl rfl
  | struct hd hk hfst _ ih =>
    refine hc.canonical_object hd (by rw [hk]; decide) (fun q hq => ?_) fun _ => hfst
    refine ⟨hfst ▸ List.mem_map_of_mem hq, fun h => ?_, ih q hq⟩
    rw [hk] at h
    exact absurd h (by decide)
  | message hd hk hfields _ ih =>
    refine hc.canonical_object hd (by rw [hk]; decide) (fun q hq => ?_) fun h => ?_
    · exact ⟨(hfields q hq).1, fun _ => (hfields q hq).2, ih q hq⟩
    · rw [hk] at h
      exact absurd h (by decide)
  | array hlength hzero _ ih => exact canonical_array hlength hzero ih

theorem Valid.exists_encodeAs_of_decodeAs (hc : c.Valid) {type : TypeRef}
    {bs : List UInt8} {v : Value} (h : (c.decodeAs type bs).result = .ok v) :
    ∃ bs', (c.encodeAs type v).result = .ok bs' ∧ (c.decodeAs type bs').result = .ok v := by
  obtain ⟨cur', hreads, -⟩ := Catalog.decodeAs_eq_ok_iff.mp h
  have hcanonical := hc.canonical_of_reads hreads
  have hencode := encodeAs_eq_ok_iff.mpr ⟨hcanonical.conforms, rfl⟩
  have hdecode := hc.decodeAs_eq_ok_iff (w := v) hcanonical.ordered hcanonical.arraysFit hencode
  refine ⟨_, hencode, hdecode.mpr ⟨?_, hcanonical.normal⟩⟩
  rw [hcanonical.normal]
  exact hcanonical.fits

/-- Whatever decodes can be encoded again, and the bytes decode to the same value: they stand for
nothing else, and encoding what they stand for gives them back. -/
theorem encodeAs_of_decodeAs {s : Schema} (hc : s.compile.result = .ok c) {type : TypeRef}
    {bs : List UInt8} {v : Value} (h : (c.decodeAs type bs).result = .ok v) :
    ∃ bs', (c.encodeAs type v).result = .ok bs' ∧ (c.decodeAs type bs').result = .ok v ∧
      ∀ v', (c.decodeAs type bs').result = .ok v' → (c.encodeAs type v').result = .ok bs' := by
  obtain ⟨bs', hencode, hdecode⟩ := (Schema.valid_of_compile hc).exists_encodeAs_of_decodeAs h
  refine ⟨bs', hencode, hdecode, fun v' hv' => ?_⟩
  obtain rfl := Except.ok.inj (hdecode.symm.trans hv')
  exact hencode

/-- An overlong id, a deprecated member and an unknown id leave no trace. -/
theorem encodeAs_of_decodeAs_sample :
    let c : Catalog := ⟨[emptyStruct, sampleMessage]⟩
    let v : Value := .object "Sample" [("x", .float ⟨0⟩)]
    (c.decodeAs (.definition 1) [0x81, 0, 0, 2, 1, 9, 5, 0]).result = .ok v ∧
      ∃ bs', (c.encodeAs (.definition 1) v).result = .ok bs' ∧
        (c.decodeAs (.definition 1) bs').result = .ok v ∧
        ∀ v', (c.decodeAs (.definition 1) bs').result = .ok v' →
          (c.encodeAs (.definition 1) v').result = .ok bs' := by
  intro c v
  have hdecode : (c.decodeAs (.definition 1) [0x81, 0, 0, 2, 1, 9, 5, 0]).result = .ok v := rfl
  exact ⟨hdecode, encodeAs_of_decodeAs compile_sampleSchema hdecode⟩

end WireSchema.Catalog
