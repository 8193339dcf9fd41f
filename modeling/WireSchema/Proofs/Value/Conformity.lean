import WireSchema.Proofs.Catalog.Valid
import WireSchema.Proofs.Catalog.ZeroWidth
import WireSchema.Proofs.Value.Basic
import WireSchema.Proofs.Varint
import WireSchema.Proofs.Writing
import WireSchema.Value.Encode

/-! Values that conform to a shape: those that can be written as it. What is written of them is put
together from what is written of their parts, and is empty exactly for the types that take no
bytes. -/

namespace WireSchema.Catalog

open Writing (Succeeds)

variable {c : Catalog}

/-- A value of a shape. A struct has all of its fields; a message may lack some, and a member of a
deprecated field may be anything, since it is not written. -/
inductive Conforms (c : Catalog) : Shape → Value → Prop
  | bool (b : Bool) : Conforms c (.one .bool) (.bool b)
  | byte (b : UInt8) : Conforms c (.one .byte) (.byte b)
  | int (n : Int32) : Conforms c (.one .int) (.int n)
  | uint (n : UInt32) : Conforms c (.one .uint) (.uint n)
  | float (x : Binary32) : Conforms c (.one .float) (.float x)
  | string {s : String} (hs : Char.ofNat 0 ∉ s.toList) : Conforms c (.one .string) (.string s)
  | enum {index : Nat} {d : Definition} {f : Field} {entry : String}
      (hd : c.definitions[index]? = some d) (hk : d.kind = .enum) (hf : d.field? entry = some f) :
      Conforms c (.one (.definition index)) (.enum d.name entry)
  | struct {index : Nat} {d : Definition} {members : List (String × Value)}
      (hd : c.definitions[index]? = some d) (hk : d.kind = .struct)
      (hdeclared : ∀ p ∈ members, ∃ f ∈ d.fields, f.name = p.1)
      (hpresent : ∀ f ∈ d.fields, (Table.get? f.name members).isSome = true)
      (hmembers : ∀ f ∈ d.fields, ∀ v, Table.get? f.name members = some v → Conforms c f.shape v) :
      Conforms c (.one (.definition index)) (.object d.name members)
  | message {index : Nat} {d : Definition} {members : List (String × Value)}
      (hd : c.definitions[index]? = some d) (hk : d.kind = .message)
      (hdeclared : ∀ p ∈ members, ∃ f ∈ d.fields, f.name = p.1)
      (hmembers : ∀ f ∈ d.fields, f.isDeprecated = false → ∀ v, Table.get? f.name members = some v →
        Conforms c f.shape v) :
      Conforms c (.one (.definition index)) (.object d.name members)
  | array {type : TypeRef} {items : List Value} (hitems : ∀ v ∈ items, Conforms c (.one type) v) :
      Conforms c (.many type) (.array items)

/-! ### What is written of containers -/

theorem writeItems_eq (items : List Value) (type : TypeRef) :
    c.writeItems items type = Writing.concat (items.map fun v => c.write v (.one type)) := by
  induction items with
  | nil => rfl
  | cons v items ih => rw [writeItems, ih, List.map_cons, Writing.concat]

theorem memberWriters_eq (members : List (String × Value)) :
    c.memberWriters members = members.map fun p => (p.1, c.write p.2) := by
  induction members with
  | nil => rfl
  | cons p members ih =>
    rw [memberWriters, ih]
    rfl

theorem get?_memberWriters (name : String) (members : List (String × Value)) :
    Table.get? name (c.memberWriters members) = (Table.get? name members).map c.write := by
  rw [memberWriters_eq, Table.get?_map]

theorem write_array (items : List Value) (type : TypeRef) : c.write (.array items) (.many type) =
    Writing.bytes (Wire.count items) ++
      Writing.concat (items.map fun v => c.write v (.one type)) := by
  rw [write, writeItems_eq]

theorem write_object {index : Nat} {d : Definition} (hd : c.definitions[index]? = some d)
    (hk : d.kind ≠ .enum) (members : List (String × Value)) :
    c.write (.object d.name members) (.one (.definition index)) =
      writeObject d (c.memberWriters members) := by
  simp [write, hd, hk]

theorem succeeds_checkMembers {d : Definition} {members : List (String × Value)} :
    Succeeds (checkMembers d (c.memberWriters members)) ↔
      ∀ p ∈ members, ∃ f ∈ d.fields, f.name = p.1 := by
  have hnone : ∀ name, (d.indexOfName? name).isNone = false ↔ ∃ f ∈ d.fields, f.name = name := by
    intro name
    rw [← not_iff_not, Bool.not_eq_false, Option.isNone_iff_eq_none,
      Definition.indexOfName?_eq_none_iff]
    simp
  rw [checkMembers, memberWriters_eq]
  cases hfind : (members.map fun p => (p.1, c.write p.2)).find?
      fun m => (d.indexOfName? m.1).isNone with
  | none =>
    refine iff_of_true Writing.succeeds_empty fun p hp => (hnone p.1).mp ?_
    exact Bool.eq_false_iff.mpr (List.find?_eq_none.mp hfind _ (List.mem_map_of_mem hp))
  | some m =>
    have hmem := List.mem_of_find?_eq_some hfind
    have hm := List.find?_some hfind
    obtain ⟨p, hp, rfl⟩ := List.mem_map.mp hmem
    simp only [Writing.not_succeeds_fail, false_iff, not_forall]
    exact ⟨p, hp, fun h => by simp [(hnone p.1).mpr h] at hm⟩

theorem succeeds_writeStructField {d : Definition} {f : Field} {members : List (String × Value)} :
    Succeeds (writeStructField d (c.memberWriters members) f) ↔
      ∃ v, Table.get? f.name members = some v ∧ Succeeds (c.write v f.shape) := by
  rw [writeStructField, get?_memberWriters]
  cases Table.get? f.name members <;> simp

theorem succeeds_writeMessageField {d : Definition} {f : Field} {members : List (String × Value)} :
    Succeeds (writeMessageField d (c.memberWriters members) f) ↔
      (f.isDeprecated = false → ∀ v, Table.get? f.name members = some v →
        Succeeds (c.write v f.shape)) := by
  rw [writeMessageField, get?_memberWriters]
  cases Table.get? f.name members with
  | none => simp
  | some v => cases f.isDeprecated <;> simp

/-! ### Conforming values are those that can be written -/

theorem succeeds_of_conforms {shape : Shape} {v : Value} (h : Conforms c shape v) :
    Succeeds (c.write v shape) := by
  induction h with
  | bool b => simp [write]
  | byte b => simp [write]
  | int n => simp [write]
  | uint n => simp [write]
  | float x => simp [write]
  | string hs => simp [write, writeString, hs]
  | enum hd hk hf => simp [write, writeEntry, hd, hk, hf]
  | struct hd hk hdeclared hpresent _ ih =>
    rw [write_object hd (by rw [hk]; decide), writeObject, hk]
    refine Writing.succeeds_append.mpr ⟨succeeds_checkMembers.mpr hdeclared, ?_⟩
    rw [Writing.succeeds_concat, List.forall_mem_map]
    intro f hf
    obtain ⟨v, hv⟩ := Option.isSome_iff_exists.mp (hpresent f hf)
    exact succeeds_writeStructField.mpr ⟨v, hv, ih f hf v hv⟩
  | message hd hk hdeclared _ ih =>
    rw [write_object hd (by rw [hk]; decide), writeObject, hk]
    refine Writing.succeeds_append.mpr ⟨succeeds_checkMembers.mpr hdeclared, ?_⟩
    refine Writing.succeeds_append.mpr ⟨?_, Writing.succeeds_bytes _⟩
    rw [Writing.succeeds_concat, List.forall_mem_map]
    exact fun f hf => succeeds_writeMessageField.mpr (ih f hf)
  | array _ ih =>
    rw [write_array, Writing.succeeds_append, Writing.succeeds_concat, List.forall_mem_map]
    exact ⟨Writing.succeeds_bytes _, ih⟩

/-- Only objects and entries of enums are written as a definition. -/
theorem not_succeeds_definition {v : Value} {index : Nat}
    (he : ∀ type entry, v ≠ .enum type entry) (ho : ∀ type members, v ≠ .object type members) :
    ¬ Succeeds (c.write v (.one (.definition index))) := by
  cases v with
  | enum type entry => exact absurd rfl (he type entry)
  | object type members => exact absurd rfl (ho type members)
  | _ =>
    simp only [write]
    split <;> exact Writing.not_succeeds_fail _

/-- What is written as a definition is an entry of that enum, or an object of that struct or
message. -/
theorem of_succeeds_enum {index : Nat} {type entry : String}
    (h : Succeeds (c.write (.enum type entry) (.one (.definition index)))) :
    ∃ d f, c.definitions[index]? = some d ∧ d.kind = .enum ∧ type = d.name ∧
      d.field? entry = some f := by
  cases hd : c.definitions[index]? with
  | none => simp [write, hd] at h
  | some d =>
    simp only [write, hd] at h
    split at h
    · rename_i hk
      cases hf : d.field? entry with
      | none => simp [writeEntry, hf] at h
      | some f => exact ⟨d, f, rfl, hk.1, hk.2, hf⟩
    · exact absurd h (Writing.not_succeeds_fail _)

theorem of_succeeds_object {index : Nat} {type : String} {members : List (String × Value)}
    (h : Succeeds (c.write (.object type members) (.one (.definition index)))) :
    ∃ d, c.definitions[index]? = some d ∧ d.kind ≠ .enum ∧ type = d.name ∧
      Succeeds (writeObject d (c.memberWriters members)) := by
  cases hd : c.definitions[index]? with
  | none => simp [write, hd] at h
  | some d =>
    simp only [write, hd] at h
    split at h
    · rename_i hk
      exact ⟨d, rfl, hk.1, hk.2, h⟩
    · exact absurd h (Writing.not_succeeds_fail _)

theorem conforms_of_succeeds {shape : Shape} {v : Value} (h : Succeeds (c.write v shape)) :
    Conforms c shape v := by
  induction v generalizing shape with
  | array items ih =>
    cases shape with
    | many type =>
      rw [write_array, Writing.succeeds_append, Writing.succeeds_concat, List.forall_mem_map] at h
      exact .array fun v hv => ih v hv (h.2 v hv)
    | one type =>
      cases type with
      | definition index => exact absurd h (not_succeeds_definition (by simp) (by simp))
      | _ => simp [write] at h
  | enum type entry =>
    cases shape with
    | many type => simp [write] at h
    | one type =>
      cases type with
      | definition index =>
        obtain ⟨d, f, hd, hk, rfl, hf⟩ := of_succeeds_enum h
        exact .enum hd hk hf
      | _ => simp [write] at h
  | object type members ih =>
    have hget : ∀ {name v}, Table.get? name members = some v → ∀ {shape : Shape},
        Succeeds (c.write v shape) → Conforms c shape v :=
      fun hv => ih _ (Table.mem_of_get? hv)
    cases shape with
    | many type => simp [write] at h
    | one type =>
      cases type with
      | definition index =>
        obtain ⟨d, hd, hne, rfl, hobject⟩ := of_succeeds_object h
        cases hk : d.kind with
        | enum => exact absurd hk hne
        | struct =>
          simp only [writeObject, hk, Writing.succeeds_append, succeeds_checkMembers,
            Writing.succeeds_concat, List.forall_mem_map, succeeds_writeStructField] at hobject
          refine .struct hd hk hobject.1 (fun f hf => ?_) fun f hf v hv => ?_
          · obtain ⟨v, hv, -⟩ := hobject.2 f hf
            rw [hv]
            rfl
          · obtain ⟨w, hw, hsucceeds⟩ := hobject.2 f hf
            obtain rfl : w = v := Option.some.inj (hw.symm.trans hv)
            exact hget hv hsucceeds
        | message =>
          simp only [writeObject, hk, Writing.succeeds_append, succeeds_checkMembers,
            Writing.succeeds_concat, List.forall_mem_map, succeeds_writeMessageField] at hobject
          exact .message hd hk hobject.1 fun f hf hdep v hv => hget hv (hobject.2.1 f hf hdep v hv)
      | _ => simp [write] at h
  | string s =>
    cases shape with
    | many type => simp [write] at h
    | one type =>
      cases type with
      | string =>
        refine .string fun hz => ?_
        simp [write, writeString, hz] at h
      | definition index => exact absurd h (not_succeeds_definition (by simp) (by simp))
      | _ => simp [write] at h
  | _ =>
    -- any other primitive is written as its own type, and as no other
    cases shape with
    | many type => simp [write] at h
    | one type =>
      cases type with
      | definition index => exact absurd h (not_succeeds_definition (by simp) (by simp))
      | _ => first
        | constructor
        | simp [write] at h

/-- A value can be written as a shape exactly if it conforms to it. -/
theorem conforms_iff {shape : Shape} {v : Value} :
    Conforms c shape v ↔ Succeeds (c.write v shape) :=
  ⟨succeeds_of_conforms, conforms_of_succeeds⟩

/-! ### The members that are carried -/

/-- The fields of a definition whose members are written, in order, with the members: all fields of
a struct, and those fields of a message that are there and not deprecated. -/
def Definition.carried (d : Definition) (members : List (String × Value)) : List (Field × Value) :=
  d.fields.filterMap fun f =>
    if d.kind = .message ∧ f.isDeprecated = true then none
    else (Table.get? f.name members).map (f, ·)

theorem Definition.mem_carried {d : Definition} {members : List (String × Value)} {f : Field}
    {v : Value} : (f, v) ∈ d.carried members ↔ f ∈ d.fields ∧ Table.get? f.name members = some v ∧
      (d.kind = .message → f.isDeprecated = false) := by
  simp only [carried, List.mem_filterMap, ite_eq_iff, reduceCtorEq, and_false, false_or,
    Option.map_eq_some_iff, Prod.mk.injEq, not_and, Bool.not_eq_true]
  constructor
  · rintro ⟨g, hg, hdep, w, hw, rfl, rfl⟩
    exact ⟨hg, hw, hdep⟩
  · rintro ⟨hf, hv, hdep⟩
    exact ⟨f, hf, hdep, v, hv, rfl, rfl⟩

/-- The fields that are carried are in order, each once. -/
theorem Definition.carried_sublist (d : Definition) (members : List (String × Value)) :
    ((d.carried members).map Prod.fst).Sublist d.fields := by
  rw [carried]
  induction d.fields with
  | nil => simp
  | cons f fields ih =>
    rw [List.filterMap_cons]
    split
    · exact ih.cons f
    · rename_i q hq
      have hf : q.1 = f := by
        split at hq
        · simp at hq
        · obtain ⟨v, -, rfl⟩ := Option.map_eq_some_iff.mp hq
          rfl
      rw [List.map_cons, hf]
      exact ih.cons_cons f

theorem Definition.map_fst_carried {d : Definition} {members : List (String × Value)}
    (hk : d.kind = .struct) (hpresent : ∀ f ∈ d.fields, (Table.get? f.name members).isSome = true) :
    (d.carried members).map Prod.fst = d.fields := by
  rw [carried]
  generalize d.fields = fields at hpresent
  induction fields with
  | nil => rfl
  | cons f fields ih =>
    obtain ⟨hf, hfields⟩ := List.forall_mem_cons.mp hpresent
    obtain ⟨v, hv⟩ := Option.isSome_iff_exists.mp hf
    rw [List.filterMap_cons, hk, if_neg (by simp), hv]
    simpa [hk] using ih hfields

theorem Definition.flatMap_carried {α : Type} {d : Definition} {members : List (String × Value)}
    (g : Field × Value → List α) : (d.carried members).flatMap g = d.fields.flatMap fun f =>
      if d.kind = .message ∧ f.isDeprecated = true then []
      else ((Table.get? f.name members).map fun v => g (f, v)).getD [] := by
  rw [carried, List.filterMap_eq_flatMap_toList, List.flatMap_assoc]
  congr 1
  funext f
  split
  · rfl
  · cases Table.get? f.name members <;> simp

theorem written_checkMembers (d : Definition) (members : List (String × Shape.Writer)) :
    (checkMembers d members).written = [] := by
  rw [checkMembers]
  split <;> rfl

theorem written_writeStructField (d : Definition) (f : Field) (members : List (String × Value)) :
    (writeStructField d (c.memberWriters members) f).written =
      ((Table.get? f.name members).map fun v => (c.write v f.shape).written).getD [] := by
  rw [writeStructField, get?_memberWriters]
  cases Table.get? f.name members <;> rfl

theorem written_writeMessageField (d : Definition) (f : Field) (members : List (String × Value)) :
    (writeMessageField d (c.memberWriters members) f).written =
      if f.isDeprecated = true then []
      else ((Table.get? f.name members).map fun v =>
        Wire.uint f.value ++ (c.write v f.shape).written).getD [] := by
  rw [writeMessageField, get?_memberWriters]
  cases Table.get? f.name members with
  | none => simp
  | some v => cases f.isDeprecated <;> rfl

theorem written_struct {index : Nat} {d : Definition} {members : List (String × Value)}
    (hd : c.definitions[index]? = some d) (hk : d.kind = .struct)
    (h : Succeeds (c.write (.object d.name members) (.one (.definition index)))) :
    (c.write (.object d.name members) (.one (.definition index))).written =
      (d.carried members).flatMap fun p => (c.write p.2 p.1.shape).written := by
  rw [write_object hd (by rw [hk]; decide), writeObject, hk] at h ⊢
  obtain ⟨hcheck, hfields⟩ := Writing.succeeds_append.mp h
  rw [Writing.written_append hcheck, written_checkMembers, List.nil_append,
    Writing.written_concat (Writing.succeeds_concat.mp hfields), List.flatMap_map,
    Definition.flatMap_carried]
  simp [written_writeStructField, hk]

/-- What is written of a message is each id with what is written of the member, and the id 0. -/
theorem written_message {index : Nat} {d : Definition} {members : List (String × Value)}
    (hd : c.definitions[index]? = some d) (hk : d.kind = .message)
    (h : Succeeds (c.write (.object d.name members) (.one (.definition index)))) :
    (c.write (.object d.name members) (.one (.definition index))).written =
      ((d.carried members).flatMap fun p =>
        Wire.uint p.1.value ++ (c.write p.2 p.1.shape).written) ++ Wire.uint 0 := by
  rw [write_object hd (by rw [hk]; decide), writeObject, hk] at h ⊢
  obtain ⟨hcheck, h⟩ := Writing.succeeds_append.mp h
  obtain ⟨hfields, -⟩ := Writing.succeeds_append.mp h
  rw [Writing.written_append hcheck, written_checkMembers, List.nil_append,
    Writing.written_append hfields, Writing.written_bytes,
    Writing.written_concat (Writing.succeeds_concat.mp hfields), List.flatMap_map,
    Definition.flatMap_carried]
  simp [written_writeMessageField, hk]

theorem written_array {type : TypeRef} {items : List Value}
    (h : Succeeds (c.write (.array items) (.many type))) :
    (c.write (.array items) (.many type)).written =
      Wire.count items ++ items.flatMap fun v => (c.write v (.one type)).written := by
  rw [write_array] at h ⊢
  obtain ⟨hcount, hitems⟩ := Writing.succeeds_append.mp h
  rw [Writing.written_append hcount, Writing.written_bytes,
    Writing.written_concat (Writing.succeeds_concat.mp hitems), List.flatMap_map]

/-! ### Values that take no bytes -/

theorem Field.shape_eq_one_iff {f : Field} {type : TypeRef} :
    f.shape = .one type ↔ f.isArray = false ∧ f.type = type := by
  rw [shape]
  cases f.isArray <;> simp

/-- Nothing is written of a value exactly if its shape is a type that takes no bytes. -/
theorem written_eq_nil_iff {shape : Shape} {v : Value} (h : Conforms c shape v) :
    (c.write v shape).written = [] ↔ ∃ type, shape = .one type ∧ c.isZeroWidth type = true := by
  have hone : ∀ {type : TypeRef} {bs : List UInt8}, bs ≠ [] → ¬ c.isZeroWidth type = true →
      (bs = [] ↔ ∃ type', Shape.one type = .one type' ∧ c.isZeroWidth type' = true) := by
    intro type bs hbs hz
    apply iff_of_false hbs
    rintro ⟨_, ⟨⟩, hz'⟩
    exact hz hz'
  have hs := succeeds_of_conforms h
  induction h with
  | bool b => exact hone (by simp [write, Wire.bool]) (not_isZeroWidth_primitive nofun)
  | byte b => exact hone (by simp [write]) (not_isZeroWidth_primitive nofun)
  | int n => exact hone (Varint.encode_ne_nil _) (not_isZeroWidth_primitive nofun)
  | uint n => exact hone (Varint.encode_ne_nil _) (not_isZeroWidth_primitive nofun)
  | float x =>
    refine hone ?_ (not_isZeroWidth_primitive nofun)
    show Wire.float x ≠ []
    rw [Wire.float]
    split <;> simp [Wire.littleEndian]
  | string hz =>
    refine hone ?_ (not_isZeroWidth_primitive nofun)
    simp [write, writeString, hz, Wire.string]
  | enum hd hk hf =>
    refine hone ?_ (by simp [isZeroWidth_definition_iff hd, hk])
    simp [write, writeEntry, hd, hk, hf, Wire.uint, Varint.encode_ne_nil]
  | @struct index d members hd hk hdeclared hpresent hmembers ih =>
    rw [written_struct hd hk hs, List.flatMap_eq_nil_iff]
    have hfield := fun f hf v hv => ih f hf v hv (succeeds_of_conforms (hmembers f hf v hv))
    constructor
    · intro hnil
      refine ⟨_, rfl, (isZeroWidth_definition_iff hd).mpr ⟨hk, fun f hf => ?_⟩⟩
      obtain ⟨v, hv⟩ := Option.isSome_iff_exists.mp (hpresent f hf)
      have hmem : (f, v) ∈ d.carried members :=
        Definition.mem_carried.mpr ⟨hf, hv, fun h => by simp [hk] at h⟩
      obtain ⟨type, hshape, hz⟩ := (hfield f hf v hv).mp (hnil _ hmem)
      obtain ⟨harray, rfl⟩ := Field.shape_eq_one_iff.mp hshape
      exact ⟨harray, hz⟩
    · rintro ⟨_, ⟨⟩, hz⟩ ⟨f, v⟩ hfv
      obtain ⟨hf, hv, -⟩ := Definition.mem_carried.mp hfv
      obtain ⟨harray, hfz⟩ := ((isZeroWidth_definition_iff hd).mp hz).2 f hf
      exact (hfield f hf v hv).mpr ⟨_, Field.shape_eq_one_iff.mpr ⟨harray, rfl⟩, hfz⟩
  | message hd hk _ _ _ =>
    rw [written_message hd hk hs]
    apply hone (by simp [Wire.uint, Varint.encode_ne_nil])
    simp [isZeroWidth_definition_iff hd, hk]
  | array _ _ =>
    rw [written_array hs]
    exact iff_of_false (by simp [Wire.count, Varint.encode_ne_nil]) nofun

end WireSchema.Catalog
