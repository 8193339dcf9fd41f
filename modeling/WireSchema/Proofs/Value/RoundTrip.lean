import WireSchema.Proofs.Catalog.Compile
import WireSchema.Proofs.Value.Normal

/-! Values read back. What is written of a conforming value is read as its normal form exactly if
that keeps to the limits of reading; if it does not, reading fails at one of the limits. -/

namespace WireSchema.Catalog

open Reader (Reads Fails Takes Settles)

variable {c : Catalog} {d : Definition} {f : Field} {levels : Nat}
  {inner : Shape → Reader DecodeError Value}

/-- An error that says that a limit of reading is passed. -/
def IsLimit (e : DecodeError) : Prop := e = .tooDeep ∨ ∃ n, e = .arrayTooLong n

theorem takes_readEntry (hf : d.fieldOfValue? f.value = some f) :
    Takes (readEntry d) (Wire.uint f.value) (.enum d.name f.name) := by
  apply (Takes.mapError (Reader.takes_uint f.value)).map
  rw [hf]
  exact Takes.pure _

/-- Pieces of at least one byte each make at least as many bytes. -/
theorem length_le_length_flatMap {α : Type} {l : List α} {g : α → List UInt8}
    (h : ∀ a ∈ l, g a ≠ []) : l.length ≤ (l.flatMap g).length := by
  induction l with
  | nil => simp
  | cons a l ih =>
    obtain ⟨ha, hl⟩ := List.forall_mem_cons.mp h
    have := List.length_pos_iff.mpr ha
    have := ih hl
    rw [List.flatMap_cons, List.length_append, List.length_cons]
    omega

/-- Each member of a message takes a byte at least, for its id. -/
theorem length_le_length_members (qs : List (Field × Value)) (encode : Field × Value → List UInt8) :
    qs.length ≤ ((qs.flatMap fun q => Wire.uint q.1.value ++ encode q) ++ Wire.uint 0).length := by
  have := length_le_length_flatMap (l := qs) (g := fun q => Wire.uint q.1.value ++ encode q)
    fun q _ => by simp [Wire.uint, Varint.encode_ne_nil]
  rw [List.length_append]
  omega

/-! ### Structs and messages -/

section Members

variable {qs : List (Field × Value)} {encode : Field × Value → List UInt8}
  {fits : Field × Value → Prop} {decode : Field × Value → Value}

/-- A struct is read if each of its members is. -/
theorem settles_readStruct (hfields : qs.map Prod.fst = d.fields)
    (h : ∀ q ∈ qs, Settles IsLimit (inner q.1.shape) (encode q) (fits q) (decode q)) :
    Settles IsLimit (readStruct inner d) (qs.flatMap encode) (∀ q ∈ qs, fits q)
      (.object d.name (Table.ofPairs (qs.map fun q => (q.1.name, decode q)))) := by
  have hstep : ∀ q ∈ qs, ∀ members : List (String × Value),
      Settles IsLimit (do return Table.insert q.1.name (← inner q.1.shape) members) (encode q)
        (fits q) (Table.insert q.1.name (decode q) members) :=
    fun q hq members => (h q hq).map (Takes.pure _)
  rw [readStruct, ← hfields, Reader.foldl_map, Table.ofPairs, List.foldl_map]
  exact (Settles.foldl hstep []).map (Takes.pure _)

/-- The members of a message are read up to the id 0, if each of them is and there are ids
enough. -/
theorem settles_readMembers {fuel : Nat} (hfuel : qs.length ≤ fuel)
    (hq : ∀ q ∈ qs, d.fieldOfValue? q.1.value = some q.1 ∧ q.1.value ≠ 0 ∧ q.1.isDeprecated = false)
    (h : ∀ q ∈ qs, Settles IsLimit (inner q.1.shape) (encode q) (fits q) (decode q))
    (members : List (String × Value)) :
    Settles IsLimit (readMembers inner d fuel members)
      ((qs.flatMap fun q => Wire.uint q.1.value ++ encode q) ++ Wire.uint 0) (∀ q ∈ qs, fits q)
      (qs.foldl (fun members q => Table.insert q.1.name (decode q) members) members) := by
  have huint : ∀ n, Takes (Reader.mapError DecodeError.buffer Reader.uint) (Wire.uint n) n :=
    fun n => Takes.mapError (Reader.takes_uint n)
  induction qs generalizing fuel members with
  | nil =>
    refine (Settles.of_takes ?_).congr (by simp)
    cases fuel with
    | zero => exact (huint 0).map (Takes.pure _)
    | succ fuel => exact (huint 0).map (Takes.pure _)
  | cons q qs ih =>
    obtain ⟨hhead, htail⟩ := List.forall_mem_cons.mp hq
    obtain ⟨hvalue, hzero, hdep⟩ := hhead
    obtain ⟨fuel, rfl⟩ : ∃ n, fuel = n + 1 := ⟨fuel - 1, by simp at hfuel; omega⟩
    have hmember : Settles IsLimit (readMember inner d q.1.value members) (encode q) (fits q)
        (Table.insert q.1.name (decode q) members) := by
      simp only [readMember, hvalue, hdep]
      exact (h q List.mem_cons_self).map (Takes.pure _)
    have hrest := ih (by simpa using hfuel) htail (fun q' hq' => h q' (List.mem_cons_of_mem q hq'))
      (Table.insert q.1.name (decode q) members)
    have hall : Settles IsLimit (readMembers inner d (fuel + 1) members)
        (Wire.uint q.1.value ++ (encode q ++ ((qs.flatMap fun q =>
          Wire.uint q.1.value ++ encode q) ++ Wire.uint 0))) (fits q ∧ ∀ q ∈ qs, fits q)
        ((q :: qs).foldl (fun members q => Table.insert q.1.name (decode q) members) members) := by
      apply Settles.bind_takes (huint q.1.value)
      rw [if_neg hzero]
      exact hmember.bind hrest
    simpa using hall

/-- A message is read if each of its members is; each id takes a byte, so there are ids enough. -/
theorem settles_readMessage
    (hq : ∀ q ∈ qs, d.fieldOfValue? q.1.value = some q.1 ∧ q.1.value ≠ 0 ∧ q.1.isDeprecated = false)
    (h : ∀ q ∈ qs, Settles IsLimit (inner q.1.shape) (encode q) (fits q) (decode q)) :
    Settles IsLimit (readMessage inner d)
      ((qs.flatMap fun q => Wire.uint q.1.value ++ encode q) ++ Wire.uint 0) (∀ q ∈ qs, fits q)
      (.object d.name (Table.ofPairs (qs.map fun q => (q.1.name, decode q)))) := by
  rw [Table.ofPairs, List.foldl_map]
  apply Settles.cursor
  intro here hhere
  exact (settles_readMembers ((length_le_length_members qs encode).trans hhere) hq h []).map
    (Takes.pure _)

end Members

/-! ### Arrays -/

theorem reads_readCount {n : Nat} (hn : n < 2 ^ 32) {type : TypeRef} {rest : List UInt8}
    (hzero : c.isZeroWidth type = true → n ≤ maxZeroWidthLength)
    (hrest : ¬ c.isZeroWidth type = true → n ≤ rest.length) (offset : Nat) :
    Reads (c.readCount type) ⟨offset, Wire.uint (UInt32.ofNat n) ++ rest⟩ n
      ⟨offset + (Wire.uint (UInt32.ofNat n)).length, rest⟩ := by
  have hnat : (UInt32.ofNat n).toNat = n := UInt32.toNat_ofNat_of_lt hn
  refine Reader.reads_bind.mpr ⟨_, _, Takes.mapError (Reader.takes_uint _) offset rest, ?_⟩
  refine Reader.reads_bind.mpr ⟨_, _, Reader.reads_cursor.mpr ⟨rfl, rfl⟩, ?_⟩
  simp only [hnat, Cursor.remaining]
  by_cases hz : c.isZeroWidth type = true
  · simp [hz, Nat.not_lt.mpr (hzero hz), Wire.uint]
  · simp [hz, Nat.not_lt.mpr (hrest hz), Wire.uint]

theorem fails_readCount {n : Nat} (hn : n < 2 ^ 32) {type : TypeRef}
    (hz : c.isZeroWidth type = true) (hlong : maxZeroWidthLength < n) (offset : Nat)
    (rest : List UInt8) : Fails (c.readCount type) ⟨offset, Wire.uint (UInt32.ofNat n) ++ rest⟩
      (.arrayTooLong n) := by
  have hnat : (UInt32.ofNat n).toNat = n := UInt32.toNat_ofNat_of_lt hn
  refine Reader.fails_bind.mpr (.inr ⟨_, _, Takes.mapError (Reader.takes_uint _) offset rest, ?_⟩)
  refine Reader.fails_bind.mpr (.inr ⟨_, _, Reader.reads_cursor.mpr ⟨rfl, rfl⟩, ?_⟩)
  simp [hnat, hz, hlong]

/-- An array is read if its count may be and each of its items is. -/
theorem settles_array {type : TypeRef} {items : List Value} {encode : Value → List UInt8}
    {fits : Value → Prop} {decode : Value → Value} {m : Reader DecodeError Value}
    (hlength : items.length < 2 ^ 32)
    (hwidth : ¬ c.isZeroWidth type = true → ∀ v ∈ items, encode v ≠ [])
    (h : ∀ v ∈ items, Settles IsLimit m (encode v) (fits v) (decode v)) :
    Settles IsLimit (do let n ← c.readCount type; return Value.array (← m.times n))
      (Wire.count items ++ items.flatMap encode)
      ((c.isZeroWidth type = true → items.length ≤ maxZeroWidthLength) ∧ ∀ v ∈ items, fits v)
      (.array (items.map decode)) := by
  have hitems : Settles IsLimit (do return Value.array (← m.times items.length))
      (items.flatMap encode) (∀ v ∈ items, fits v) (.array (items.map decode)) :=
    (Settles.times h).map (Takes.pure _)
  have hcount : ∀ offset rest, (c.isZeroWidth type = true → items.length ≤ maxZeroWidthLength) →
      Reads (c.readCount type) ⟨offset, Wire.count items ++ items.flatMap encode ++ rest⟩
        items.length ⟨offset + (Wire.count items).length, items.flatMap encode ++ rest⟩ := by
    intro offset rest hzero
    rw [List.append_assoc]
    refine reads_readCount hlength hzero (fun hz => ?_) offset
    have := length_le_length_flatMap (hwidth hz)
    rw [List.length_append]
    omega
  constructor
  · rintro ⟨hzero, hall⟩ offset rest
    refine Reader.reads_bind.mpr ⟨_, _, hcount offset rest hzero, ?_⟩
    simpa [Nat.add_assoc] using hitems.takes hall (offset + (Wire.count items).length) rest
  · intro hnot offset rest
    by_cases hzero : c.isZeroWidth type = true → items.length ≤ maxZeroWidthLength
    · obtain ⟨e, he, hf⟩ := hitems.fails (fun hall => hnot ⟨hzero, hall⟩)
        (offset + (Wire.count items).length) rest
      exact ⟨e, he, Reader.fails_bind.mpr (.inr ⟨_, _, hcount offset rest hzero, hf⟩)⟩
    · obtain ⟨hz, hlong⟩ := Classical.not_imp.mp hzero
      refine ⟨.arrayTooLong items.length, .inr ⟨_, rfl⟩, Reader.fails_bind.mpr (.inl ?_)⟩
      rw [List.append_assoc]
      exact fails_readCount hlength hz (Nat.lt_of_not_le hlong) offset _

/-! ### Values of all shapes -/

/-- At the deepest level no container is read. -/
theorem settles_deepest {m : Reader DecodeError Value} {bs : List UInt8} {p : Prop} {v : Value}
    (hp : ¬ p) (h : ∀ cursor, Fails m cursor .tooDeep) : Settles IsLimit m bs p v :=
  ⟨fun hp' => absurd hp' hp, fun _ _ _ => ⟨_, .inl rfl, h _⟩⟩

theorem readWithin_succ_definition {index : Nat} (hd : c.definitions[index]? = some d) :
    c.readWithin (levels + 1) (.one (.definition index)) =
      match d.kind with
      | .enum => readEntry d
      | .struct => readStruct (c.readWithin levels) d
      | .message => readMessage (c.readWithin levels) d := by
  simp only [readWithin, readShape, hd]
  cases d.kind <;> rfl

theorem readWithin_enum {index : Nat} (hd : c.definitions[index]? = some d) (hk : d.kind = .enum) :
    c.readWithin levels (.one (.definition index)) = readEntry d := by
  cases levels <;> simp [readWithin, readShape, hd, hk]

theorem fails_readWithin_zero {index : Nat} (hd : c.definitions[index]? = some d)
    (hk : d.kind ≠ .enum) (cursor : Cursor) :
    Fails (c.readWithin 0 (.one (.definition index))) cursor .tooDeep := by
  cases hkind : d.kind <;> simp_all [readWithin, readShape]

/-- What is written of a value as a shape is read as its normal form if that keeps to the limits,
where containers may nest so deep; if not, reading fails at one of them. -/
def Returns (c : Catalog) (levels : Nat) (shape : Shape) (v : Value) : Prop :=
  Settles IsLimit (c.readWithin levels shape) (c.write v shape).written
    (c.Fits levels shape (c.normal v)) (c.normal v)

section Containers

variable {index : Nat} {members : List (String × Value)}

/-- A struct comes back if its members do, one level deeper. -/
theorem returns_struct (hc : c.Valid) (hd : c.definitions[index]? = some d) (hk : d.kind = .struct)
    (hdeclared : ∀ p ∈ members, ∃ f ∈ d.fields, f.name = p.1) (hsorted : Table.Sorted members)
    (hpresent : ∀ f ∈ d.fields, (Table.get? f.name members).isSome = true)
    (hs : Writing.Succeeds (c.write (.object d.name members) (.one (.definition index))))
    (h : ∀ levels, ∀ q ∈ d.carried members, Returns c levels q.1.shape q.2) (levels : Nat) :
    Returns c levels (.one (.definition index)) (.object d.name members) := by
  cases levels with
  | zero =>
    apply settles_deepest (not_fits_zero (Value.depth_object_pos _ _))
    exact fails_readWithin_zero hd (by rw [hk]; decide)
  | succ levels =>
    have hread := settles_readStruct (Definition.map_fst_carried hk hpresent) (h levels)
    rw [← hc.normal_object (List.mem_of_getElem? hd) hdeclared hsorted] at hread
    rw [Returns, written_struct hd hk hs, readWithin_succ_definition hd, hk]
    exact hread.congr (hc.fits_normal_object_iff hd hdeclared hsorted).symm

/-- A message comes back if the members that are carried do, one level deeper. -/
theorem returns_message (hc : c.Valid) (hd : c.definitions[index]? = some d)
    (hk : d.kind = .message) (hdeclared : ∀ p ∈ members, ∃ f ∈ d.fields, f.name = p.1)
    (hsorted : Table.Sorted members)
    (hs : Writing.Succeeds (c.write (.object d.name members) (.one (.definition index))))
    (h : ∀ levels, ∀ q ∈ d.carried members, Returns c levels q.1.shape q.2) (levels : Nat) :
    Returns c levels (.one (.definition index)) (.object d.name members) := by
  have hd' := List.mem_of_getElem? hd
  have hnotEnum : d.kind ≠ .enum := by rw [hk]; decide
  have hnotStruct : d.kind ≠ .struct := by rw [hk]; decide
  cases levels with
  | zero =>
    apply settles_deepest (not_fits_zero (Value.depth_object_pos _ _))
    exact fails_readWithin_zero hd hnotEnum
  | succ levels =>
    have hids : ∀ q ∈ d.carried members, d.fieldOfValue? q.1.value = some q.1 ∧
        q.1.value ≠ 0 ∧ q.1.isDeprecated = false := by
      rintro ⟨f, v⟩ hq
      obtain ⟨hf, -, hdep⟩ := Definition.mem_carried.mp hq
      exact ⟨hc.fieldOfValue?_value hd' hnotStruct hf, hc.ids d hd' hk f hf, hdep hk⟩
    have hread := settles_readMessage hids (h levels)
    rw [← hc.normal_object hd' hdeclared hsorted] at hread
    rw [Returns, written_message hd hk hs, readWithin_succ_definition hd, hk]
    exact hread.congr (hc.fits_normal_object_iff hd hdeclared hsorted).symm

/-- An array comes back if its items do, one level deeper. -/
theorem returns_array {type : TypeRef} {items : List Value} (hlength : items.length < 2 ^ 32)
    (hconforms : ∀ v ∈ items, Conforms c (.one type) v)
    (hs : Writing.Succeeds (c.write (.array items) (.many type)))
    (h : ∀ levels, ∀ v ∈ items, Returns c levels (.one type) v) (levels : Nat) :
    Returns c levels (.many type) (.array items) := by
  cases levels with
  | zero =>
    rw [Returns, normal_array]
    exact settles_deepest (not_fits_zero (Value.depth_array_pos _)) fun _ => rfl
  | succ levels =>
    have hwidth : ¬ c.isZeroWidth type = true →
        ∀ v ∈ items, (c.write v (.one type)).written ≠ [] := by
      intro hz v hv hnil
      obtain ⟨_, ⟨⟩, hz'⟩ := (written_eq_nil_iff (hconforms v hv)).mp hnil
      exact hz hz'
    have hread := settles_array hlength hwidth (h levels)
    rw [Returns, written_array hs, normal_array]
    exact hread.congr (by simp [fits_array_iff])

end Containers

/-- A value that is no container comes back whatever the limits. -/
theorem returns_of_takes {type : TypeRef} {v : Value} (hdepth : (c.normal v).depth = 0)
    (h : Takes (c.readWithin levels (.one type)) (c.write v (.one type)).written (c.normal v)) :
    Returns c levels (.one type) v :=
  (Settles.of_takes h).congr (iff_of_true trivial (fits_of_depth hdepth))

/-- Every conforming value comes back. By induction on its conformity, one level for each
container. -/
theorem returns_of_conforms (hc : c.Valid) {shape : Shape} {v : Value} (h : Conforms c shape v)
    (hordered : v.Ordered) (hfit : v.ArraysFit) (levels : Nat) : Returns c levels shape v := by
  have hs := succeeds_of_conforms h
  induction h generalizing levels with
  | bool b =>
    apply returns_of_takes rfl
    cases levels <;> exact (Takes.mapError (Reader.takes_bool b)).map (Takes.pure _)
  | byte b =>
    apply returns_of_takes rfl
    cases levels <;> exact (Takes.mapError (Takes.byte b)).map (Takes.pure _)
  | int n =>
    apply returns_of_takes rfl
    cases levels <;> exact (Takes.mapError (Reader.takes_int n)).map (Takes.pure _)
  | uint n =>
    apply returns_of_takes rfl
    cases levels <;> exact (Takes.mapError (Reader.takes_uint n)).map (Takes.pure _)
  | float x =>
    apply returns_of_takes rfl
    cases levels <;> exact (Takes.mapError (Reader.takes_float x)).map (Takes.pure _)
  | @string s hz =>
    have hwritten : (c.write (.string s) (.one .string)).written = Wire.string s := by
      simp [write, writeString, hz]
    apply returns_of_takes rfl
    rw [hwritten]
    cases levels <;> exact (Takes.mapError (Reader.takes_string hz)).map (Takes.pure _)
  | @enum index d f entry hd hk hf =>
    have hwritten : (c.write (.enum d.name entry) (.one (.definition index))).written =
        Wire.uint f.value := by
      simp [write, writeEntry, hd, hk, hf]
    have hnotStruct : d.kind ≠ .struct := by rw [hk]; decide
    obtain ⟨hmem, rfl⟩ := Definition.of_field? hf
    apply returns_of_takes rfl
    rw [hwritten, readWithin_enum hd hk]
    exact takes_readEntry (hc.fieldOfValue?_value (List.mem_of_getElem? hd) hnotStruct hmem)
  | @struct index d members hd hk hdeclared hpresent hmembers ih =>
    obtain ⟨hsorted, hordered⟩ := Value.ordered_object_iff.mp hordered
    have hfit := Value.arraysFit_object_iff.mp hfit
    apply returns_struct hc hd hk hdeclared hsorted hpresent hs
    rintro levels ⟨f, v⟩ hq
    obtain ⟨hf, hv, -⟩ := Definition.mem_carried.mp hq
    have hp := Table.mem_of_get? hv
    have hconforms := hmembers f hf v hv
    exact ih f hf v hv (hordered _ hp) (hfit _ hp) levels (succeeds_of_conforms hconforms)
  | @message index d members hd hk hdeclared hmembers ih =>
    obtain ⟨hsorted, hordered⟩ := Value.ordered_object_iff.mp hordered
    have hfit := Value.arraysFit_object_iff.mp hfit
    apply returns_message hc hd hk hdeclared hsorted hs
    rintro levels ⟨f, v⟩ hq
    obtain ⟨hf, hv, hdep⟩ := Definition.mem_carried.mp hq
    have hp := Table.mem_of_get? hv
    have hconforms := hmembers f hf (hdep hk) v hv
    exact ih f hf (hdep hk) v hv (hordered _ hp) (hfit _ hp) levels (succeeds_of_conforms hconforms)
  | @array type items hitems ih =>
    obtain ⟨hlength, hfit⟩ := Value.arraysFit_array_iff.mp hfit
    have hordered := Value.ordered_array_iff.mp hordered
    apply returns_array hlength hitems hs
    intro levels v hv
    exact ih v hv (hordered v hv) (hfit v hv) levels (succeeds_of_conforms (hitems v hv))

/-! ### Values and their bytes -/

/-- Bytes stand for what is read from them, if all of them are read. -/
theorem decodeAs_eq_ok_iff {type : TypeRef} {bs : List UInt8} {v : Value} :
    (c.decodeAs type bs).result = .ok v ↔
      ∃ c', Reads (c.readValue type) (Cursor.start bs) v c' ∧ c'.remaining = 0 := by
  simp only [decodeAs, Reads]
  cases h : (c.readValue type (Cursor.start bs)).result with
  | error e => simp
  | ok w =>
    by_cases hend : (c.readValue type (Cursor.start bs)).cursor.remaining = 0 <;> simp [hend]

theorem decodeAs_eq_error_of_fails {type : TypeRef} {bs : List UInt8} {e : DecodeError}
    (h : Fails (c.readValue type) (Cursor.start bs) e) :
    (c.decodeAs type bs).result = .error e := by
  simp only [Fails] at h
  simp only [decodeAs, h]

theorem encodeAs_eq_ok_iff {type : TypeRef} {bs : List UInt8} {v : Value} :
    (c.encodeAs type v).result = .ok bs ↔
      Conforms c (.one type) v ∧ (c.write v (.one type)).written = bs := by
  rw [encodeAs, writeValue, Writing.toNoted_result_eq_ok, conforms_iff]

theorem encode_eq_ok_iff {name : String} {bs : List UInt8} {v : Value} :
    (c.encode name v).result = .ok bs ↔
    ∃ type, c.typeOf? name = some type ∧ (c.encodeAs type v).result = .ok bs := by
  rw [encode]
  cases c.typeOf? name <;> simp [Noted.fail]

theorem decode_eq_ok_iff {name : String} {bs : List UInt8} {v : Value} :
    (c.decode name bs).result = .ok v ↔
    ∃ type, c.typeOf? name = some type ∧ (c.decodeAs type bs).result = .ok v := by
  rw [decode]
  cases c.typeOf? name <;> simp [Noted.fail]

/-- The bytes of a value decode to its normal form if this keeps to the limits of reading, and to
nothing else. -/
theorem Valid.decodeAs_eq_ok_iff (hc : c.Valid) {type : TypeRef} {v w : Value} {bs : List UInt8}
    (hordered : v.Ordered) (hfit : v.ArraysFit) (hv : (c.encodeAs type v).result = .ok bs) :
    (c.decodeAs type bs).result = .ok w ↔
    c.Fits maxDepth (.one type) (c.normal v) ∧ c.normal v = w := by
  obtain ⟨hconforms, rfl⟩ := encodeAs_eq_ok_iff.mp hv
  have hread := returns_of_conforms hc hconforms hordered hfit maxDepth
  by_cases hlimits : c.Fits maxDepth (.one type) (c.normal v)
  · have htakes := hread.takes hlimits 0 []
    rw [List.append_nil] at htakes
    rw [Catalog.decodeAs_eq_ok_iff.mpr ⟨_, htakes, rfl⟩, Except.ok.injEq]
    exact ⟨fun hw => ⟨hlimits, hw⟩, And.right⟩
  · obtain ⟨e, -, hfails⟩ := hread.fails hlimits 0 []
    rw [List.append_nil] at hfails
    rw [decodeAs_eq_error_of_fails hfails]
    exact iff_of_false (by simp) fun hw => hlimits hw.1

/-- The bytes of a value decode to its normal form exactly if this nests at most `maxDepth` deep and
has no array of more than `maxZeroWidthLength` elements that take no bytes; if not, decoding fails
at one of these limits, and in no other way. -/
theorem decodeAs_of_encodeAs {s : Schema} (hc : s.compile.result = .ok c) {type : TypeRef}
    {v : Value} {bs : List UInt8} (hordered : v.Ordered) (hfit : v.ArraysFit)
    (h : (c.encodeAs type v).result = .ok bs) :
    ((c.normal v).depth ≤ maxDepth ∧ c.CountsFit (c.normal v) →
      (c.decodeAs type bs).result = .ok (c.normal v)) ∧
    (¬ ((c.normal v).depth ≤ maxDepth ∧ c.CountsFit (c.normal v)) →
      ∃ e, (c.decodeAs type bs).result = .error e ∧ (e = .tooDeep ∨ ∃ n, e = .arrayTooLong n)) := by
  obtain ⟨hconforms, rfl⟩ := encodeAs_eq_ok_iff.mp h
  have hread := returns_of_conforms (Schema.valid_of_compile hc) hconforms hordered hfit maxDepth
  have hfits : c.Fits maxDepth (.one type) (c.normal v) ↔
      (c.normal v).depth ≤ maxDepth ∧ c.CountsFit (c.normal v) :=
    ⟨fun h => ⟨h.depth, h.counts⟩, fun h => ⟨h.1, countFits_one type _, h.2⟩⟩
  constructor
  · intro hlimits
    have htakes := hread.takes (hfits.mpr hlimits) 0 []
    rw [List.append_nil] at htakes
    exact decodeAs_eq_ok_iff.mpr ⟨_, htakes, rfl⟩
  · intro hlimits
    obtain ⟨e, he, hfails⟩ := hread.fails (mt hfits.mp hlimits) 0 []
    rw [List.append_nil] at hfails
    exact ⟨e, decodeAs_eq_error_of_fails hfails, he⟩

def emptyStruct : Definition := ⟨"Empty", .struct, []⟩

/-- A message with a number, a deprecated truth value and an array of empty structs. -/
def sampleMessage : Definition :=
  ⟨"Sample", .message, [⟨"x", .float, false, false, 1⟩, ⟨"y", .bool, false, true, 2⟩,
    ⟨"z", .definition 0, true, false, 3⟩]⟩

def sampleSchema : Schema :=
  ⟨none, [⟨"Empty", .none, .struct, []⟩,
    ⟨"Sample", .none, .message, [⟨"x", .none, some "float", false, false, 1⟩,
      ⟨"y", .none, some "bool", false, true, 2⟩, ⟨"z", .none, some "Empty", true, false, 3⟩]⟩]⟩

theorem compile_sampleSchema : sampleSchema.compile.result =
    .ok ⟨[emptyStruct, sampleMessage]⟩ := by
  decide

/-- The sign of zero and the deprecated member are lost, the rest comes back. -/
theorem decodeAs_of_encodeAs_sample :
    let c : Catalog := ⟨[emptyStruct, sampleMessage]⟩
    let v : Value := .object "Sample"
      [("x", .float ⟨0x80000000⟩), ("y", .bool true), ("z", .array [.object "Empty" []])]
    (c.encodeAs (.definition 1) v).result = .ok [1, 0, 3, 1, 0] ∧
      (c.decodeAs (.definition 1) [1, 0, 3, 1, 0]).result =
        .ok (.object "Sample" [("x", .float ⟨0⟩), ("z", .array [.object "Empty" []])]) := by
  intro c v
  have hvalid : c.Valid := Schema.valid_of_compile compile_sampleSchema
  have hordered : v.Ordered := by
    have hempty : (Value.object "Empty" []).Ordered := Value.ordered_object_iff.mpr (by simp)
    refine Value.ordered_object_iff.mpr ⟨?_, ?_⟩
    · show List.Pairwise _ _
      decide +kernel
    · simp only [List.forall_mem_cons, List.not_mem_nil, Value.ordered_array_iff, hempty]
      exact ⟨Value.ordered_of_depth rfl, Value.ordered_of_depth rfl, by simp, by simp⟩
  have hfit : v.ArraysFit := by
    have hempty : (Value.object "Empty" []).ArraysFit := Value.arraysFit_object_iff.mpr (by simp)
    apply Value.arraysFit_object_iff.mpr
    simp only [List.forall_mem_cons, List.not_mem_nil, Value.arraysFit_array_iff, hempty]
    exact ⟨Value.arraysFit_of_depth rfl, Value.arraysFit_of_depth rfl, by simp, by simp⟩
  have hencode : (c.encodeAs (.definition 1) v).result = .ok [1, 0, 3, 1, 0] := by decide +kernel
  have hnormal : c.normal v =
      .object "Sample" [("x", .float ⟨0⟩), ("z", .array [.object "Empty" []])] := rfl
  have hcounts : c.CountsFit (c.normal v) := by
    have hempty : c.CountsFit (.object "Empty" []) :=
      (hvalid.countsFit_object_iff (d := emptyStruct) List.mem_cons_self).mpr
        (by simp [emptyStruct])
    rw [hnormal]
    refine (hvalid.countsFit_object_iff (d := sampleMessage) (by simp [c])).mpr ⟨?_, ?_⟩
    · simp [sampleMessage, Field.shape, CountFits, maxZeroWidthLength]
    · simp only [List.forall_mem_cons, List.not_mem_nil, countsFit_array_iff, hempty]
      exact ⟨countsFit_of_depth rfl, by simp, by simp⟩
  have hdepth : (c.normal v).depth ≤ maxDepth := by
    rw [hnormal]
    decide
  have hdecode := (decodeAs_of_encodeAs compile_sampleSchema hordered hfit hencode).1
    ⟨hdepth, hcounts⟩
  exact ⟨hencode, hnormal ▸ hdecode⟩

end WireSchema.Catalog
