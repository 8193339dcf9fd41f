import WireSchema.Proofs.Number.Widening
import WireSchema.Proofs.Value.Basic
import WireSchema.Proofs.Value.OfJson

/-! Values as documents and back. A value has a document exactly if its floats are finite. A
document holds everything of a value but the names of its types, and these come back with the type
that it is taken as, whatever the catalog: so where all parts of a value are of the types that the
type gives them, the document stands for that value again. -/

namespace WireSchema

namespace Value

/-- All floats of a value are finite. -/
def Finite (v : Value) : Prop := ∀ x, Part (.float x) v → x.isFinite = true

theorem finite_of_depth {v : Value} (hv : v.depth = 0) (h : ∀ x, v ≠ .float x) : v.Finite :=
  fun x hpart => absurd (hpart.eq_of_depth hv).symm (h x)

theorem finite_float_iff {x : Binary32} : (float x).Finite ↔ x.isFinite = true := by
  constructor
  · exact fun h => h x (.self _)
  · intro h y hpart
    obtain rfl := float.inj (hpart.eq_of_depth rfl)
    exact h

theorem finite_array_iff {items : List Value} : (array items).Finite ↔ ∀ v ∈ items, v.Finite := by
  constructor
  · exact fun h v hv x hpart => h x (.item hv hpart)
  · intro h x hpart
    cases hpart with
    | item hv hpart => exact h _ hv x hpart

theorem finite_object_iff {type : String} {members : List (String × Value)} :
    (object type members).Finite ↔ ∀ p ∈ members, p.2.Finite := by
  constructor
  · exact fun h p hp x hpart => h x (.member hp hpart)
  · intro h x hpart
    cases hpart with
    | member hp hpart => exact h _ hp x hpart

end Value

namespace Catalog

variable {c : Catalog} {d : Definition} {shape : Shape} {type : TypeRef} {v : Value} {j : Json}

/-- A value whose parts are of the types that a shape gives them. A struct may lack members, those
of deprecated fields are of their types as well, and a text may be any. -/
inductive Typed (c : Catalog) : Shape → Value → Prop
  | bool (b : Bool) : Typed c (.one .bool) (.bool b)
  | byte (b : UInt8) : Typed c (.one .byte) (.byte b)
  | int (n : Int32) : Typed c (.one .int) (.int n)
  | uint (n : UInt32) : Typed c (.one .uint) (.uint n)
  | float (x : Binary32) : Typed c (.one .float) (.float x)
  | string (s : String) : Typed c (.one .string) (.string s)
  | enum {index : Nat} {d : Definition} {f : Field} (hd : c.definitions[index]? = some d)
      (hk : d.kind = .enum) (hf : f ∈ d.fields) :
      Typed c (.one (.definition index)) (.enum d.name f.name)
  | object {index : Nat} {d : Definition} {members : List (String × Value)}
      (hd : c.definitions[index]? = some d) (hk : d.kind ≠ .enum)
      (hdeclared : ∀ p ∈ members, ∃ f ∈ d.fields, f.name = p.1)
      (hmembers : ∀ f ∈ d.fields, ∀ v, (f.name, v) ∈ members → Typed c f.shape v) :
      Typed c (.one (.definition index)) (.object d.name members)
  | array {type : TypeRef} {items : List Value} (hitems : ∀ v ∈ items, Typed c (.one type) v) :
      Typed c (.many type) (.array items)

/-! ### The order of members -/

section Arrange

variable {α β : Type} {name : String} {members : List (String × α)}

theorem nodup_eraseDups (l : List String) : l.eraseDups.Nodup := by
  cases l with
  | nil => exact List.nodup_nil
  | cons a l =>
    rw [List.eraseDups_cons, List.nodup_cons, List.mem_eraseDups]
    exact ⟨by simp, nodup_eraseDups _⟩
termination_by l.length
decreasing_by exact Nat.lt_succ_of_le (List.length_filter_le _ l)

theorem nodup_declaredNames (type : String) : (c.declaredNames type).Nodup := by
  rw [declaredNames]
  split
  · exact nodup_eraseDups _
  · exact List.nodup_nil

/-- The order of members depends on their names only. -/
theorem arrange_map (f : α → β) : c.arrange name (members.map fun p => (p.1, f p.2)) =
    (c.arrange name members).map fun p => (p.1, f p.2) := by
  rw [arrange, arrange, List.map_append, List.map_filterMap, List.filter_map]
  congr 1
  refine List.filterMap_congr fun n _ => ?_
  rw [Table.get?_map]
  cases Table.get? n members <;> rfl

theorem mem_arrange (h : Table.Sorted members) {p : String × α} :
    p ∈ c.arrange name members ↔ p ∈ members := by
  obtain ⟨n, a⟩ := p
  simp only [arrange, List.mem_append, List.mem_filterMap, Option.map_eq_some_iff, Prod.mk.injEq,
    List.mem_filter, Bool.not_eq_true', List.contains_eq_mem, decide_eq_false_iff_not]
  constructor
  · rintro (⟨_, _, _, ha, rfl, rfl⟩ | ⟨hp, -⟩)
    · exact Table.mem_of_get? ha
    · exact hp
  · intro hp
    by_cases hn : n ∈ c.declaredNames name
    · exact .inl ⟨n, hn, a, Table.get?_of_mem h hp, rfl, rfl⟩
    · exact .inr ⟨hp, hn⟩

/-- The names come in the order of the declared ones, then as the members do. -/
theorem map_fst_arrange (members : List (String × α)) : (c.arrange name members).map Prod.fst =
    (c.declaredNames name).filter (fun n => (Table.get? n members).isSome) ++
      (members.map Prod.fst).filter fun n => !(c.declaredNames name).contains n := by
  have hdeclared :
    ((c.declaredNames name).filterMap fun n => (Table.get? n members).map (n, ·)).map Prod.fst =
      (c.declaredNames name).filter fun n => (Table.get? n members).isSome := by
    rw [List.map_filterMap, ← List.filterMap_eq_filter]
    congr 1
    funext n
    cases hn : Table.get? n members <;> simp [hn, Option.guard]
  rw [arrange, List.map_append, hdeclared, List.filter_map]
  rfl

theorem nodup_arrange (h : Table.Sorted members) :
    ((c.arrange name members).map Prod.fst).Nodup := by
  have hmembers : (members.map Prod.fst).Nodup := List.pairwise_map.mpr (h.imp Std.ne_of_lt)
  rw [map_fst_arrange, List.nodup_append]
  refine ⟨(nodup_declaredNames name).filter _, hmembers.filter _, fun n hn m hm => ?_⟩
  rintro rfl
  exact absurd (List.mem_filter.mp hn).1 (by simpa using (List.mem_filter.mp hm).2)

/-- However they are ordered, members make the same table. -/
theorem ofPairs_arrange (h : Table.Sorted members) :
    Table.ofPairs (c.arrange name members) = members := by
  refine Table.ext (Table.sorted_ofPairs _) h fun n => Option.ext fun a => ?_
  rw [Table.get?_ofPairs_eq_some_iff (nodup_arrange h), mem_arrange h]
  exact ⟨Table.get?_of_mem h, Table.mem_of_get?⟩

end Arrange

/-! ### Documents -/

theorem itemsToJson_eq (items : List Value) : c.itemsToJson items = items.mapM c.toJson := by
  induction items with
  | nil => rfl
  | cons v items ih => rw [itemsToJson, ih, List.mapM_cons]

theorem membersToJson_eq (members : List (String × Value)) :
    c.membersToJson members = members.map fun p => (p.1, c.toJson p.2) := by
  induction members with
  | nil => rfl
  | cons p members ih => rw [membersToJson, ih, List.map_cons]

theorem toJson_array_eq_ok_iff {items : List Value} : c.toJson (.array items) = .ok j ↔
    ∃ js, List.Forall₂ (fun v j => c.toJson v = .ok j) items js ∧ .array js = j := by
  rw [toJson, Except.map_eq_ok, itemsToJson_eq]
  simp only [Except.mapM_eq_ok]

/-- The document of an object holds the documents of its members, in some order. -/
theorem toJson_object_eq_ok_iff {name : String} {members : List (String × Value)} :
    c.toJson (.object name members) = .ok j ↔ ∃ js,
      List.Forall₂ (fun p q => q.1 = p.1 ∧ c.toJson p.2 = .ok q.2) (c.arrange name members) js ∧
        .object js = j := by
  have hmember (p : String × Value) (q : String × Json) :
      (c.toJson p.2).map (p.1, ·) = .ok q ↔ q.1 = p.1 ∧ c.toJson p.2 = .ok q.2 := by
    obtain ⟨n, j⟩ := q
    simp only [Except.map_eq_ok, Prod.mk.injEq]
    constructor
    · rintro ⟨_, hj, rfl, rfl⟩
      exact ⟨rfl, hj⟩
    · rintro ⟨rfl, hj⟩
      exact ⟨j, hj, rfl, rfl⟩
  rw [toJson, Except.map_eq_ok, membersToJson_eq, arrange_map, gather]
  simp only [Except.mapM_eq_ok, List.forall₂_map_left_iff, hmember]

theorem toJson_ne_null (h : c.toJson v = .ok j) : j ≠ .null := by
  rintro rfl
  cases v with
  | float x =>
    rw [toJson] at h
    split at h <;> simp at h
  | _ => simp [toJson, Json.ofNat, Json.int] at h

theorem exists_toJson_array_iff {items : List Value} :
    (∃ j, c.toJson (.array items) = .ok j) ↔ ∀ v ∈ items, ∃ j, c.toJson v = .ok j := by
  simp only [toJson_array_eq_ok_iff, ← Except.exists_forall₂_iff]
  exact ⟨fun ⟨_, js, h, _⟩ => ⟨js, h⟩, fun ⟨js, h⟩ => ⟨_, js, h, rfl⟩⟩

theorem exists_toJson_object_iff {name : String} {members : List (String × Value)}
    (hsorted : Table.Sorted members) :
    (∃ j, c.toJson (.object name members) = .ok j) ↔ ∀ p ∈ members, ∃ j, c.toJson p.2 = .ok j := by
  have hjs : (∃ j, c.toJson (.object name members) = .ok j) ↔
      ∀ p ∈ c.arrange name members, ∃ q : String × Json, q.1 = p.1 ∧ c.toJson p.2 = .ok q.2 := by
    simp only [toJson_object_eq_ok_iff, ← Except.exists_forall₂_iff]
    exact ⟨fun ⟨_, js, h, _⟩ => ⟨js, h⟩, fun ⟨js, h⟩ => ⟨_, js, h, rfl⟩⟩
  rw [hjs]
  refine forall_congr' fun p => ?_
  rw [mem_arrange hsorted]
  exact imp_congr_right fun _ => ⟨fun ⟨q, _, hq⟩ => ⟨q.2, hq⟩, fun ⟨j, hj⟩ => ⟨(p.1, j), rfl, hj⟩⟩

/-- A value has a document exactly if its floats are finite. -/
theorem exists_toJson_iff (hordered : v.Ordered) : (∃ j, c.toJson v = .ok j) ↔ v.Finite := by
  induction v with
  | array items ih =>
    rw [exists_toJson_array_iff, Value.finite_array_iff]
    exact forall₂_congr fun v hv => ih v hv (Value.ordered_array_iff.mp hordered v hv)
  | object type members ih =>
    obtain ⟨hsorted, hordered⟩ := Value.ordered_object_iff.mp hordered
    rw [exists_toJson_object_iff hsorted, Value.finite_object_iff]
    exact forall₂_congr fun p hp => ih p hp (hordered p hp)
  | float x =>
    rw [toJson, Value.finite_float_iff]
    split <;> simp_all
  | _ => exact iff_of_true ⟨_, rfl⟩ (Value.finite_of_depth rfl (by simp))

/-! ### Back from documents -/

theorem wholeOf?_int {low high n : Int} (h : low ≤ n ∧ n ≤ high) :
    wholeOf? low high (Json.int n) = some n := if_pos h

/-- A whole number is within the bounds of its type, and a finite float is its widening narrowed. -/
theorem primitiveOf?_of_toJson (hv : Typed c (.one type) v)
    (htype : ∀ index, type ≠ .definition index) (hj : c.toJson v = .ok j) :
    primitiveOf? type j = some v := by
  cases hv with
  | bool b =>
    obtain rfl := Except.ok.inj hj
    rfl
  | byte b =>
    obtain rfl := Except.ok.inj hj
    have hb := b.toNat_lt
    simp [primitiveOf?, Json.ofNat,
      wholeOf?_int (show 0 ≤ (b.toNat : Int) ∧ (b.toNat : Int) ≤ 255 by omega)]
  | int n =>
    obtain rfl := Except.ok.inj hj
    have hlow := n.le_toInt
    have hhigh := n.toInt_lt
    simp [primitiveOf?, wholeOf?_int (show -0x80000000 ≤ n.toInt ∧ n.toInt ≤ 0x7FFFFFFF by omega)]
  | uint n =>
    obtain rfl := Except.ok.inj hj
    have hn := n.toNat_lt
    simp [primitiveOf?, Json.ofNat,
      wholeOf?_int (show 0 ≤ (n.toNat : Int) ∧ (n.toNat : Int) ≤ 0xFFFFFFFF by omega)]
  | float x =>
    rw [toJson] at hj
    by_cases hx : x.isFinite = true
    · rw [if_pos hx] at hj
      obtain rfl := Except.ok.inj hj
      simp [primitiveOf?, Json.Number.toReal, Binary32.narrow_widen hx, hx]
    · rw [if_neg hx] at hj
      exact absurd hj (by simp)
  | string s =>
    obtain rfl := Except.ok.inj hj
    rfl
  | enum | object => exact absurd rfl (htype _)

/-- An array comes back if its items do. -/
theorem ofJsonShape_array_of_toJson {items : List Value}
    (h : ∀ v ∈ items, ∀ j, c.toJson v = .ok j → c.ofJsonShape j (.one type) "" = .ok v)
    (hj : c.toJson (.array items) = .ok j) (field : String) :
    c.ofJsonShape j (.many type) field = .ok (.array items) := by
  obtain ⟨js, hjs, rfl⟩ := toJson_array_eq_ok_iff.mp hj
  exact ofJsonShape_of_stands
    (.array (Except.forall₂_imp_of_mem hjs.flip fun j _ v hv hj => h v hv j hj)) field

/-- An object comes back if its members do, and these are declared. -/
theorem ofJsonShape_object_of_toJson {index : Nat} {members : List (String × Value)}
    (hd : c.definitions[index]? = some d) (hk : d.kind ≠ .enum)
    (hdeclared : ∀ p ∈ members, ∃ f ∈ d.fields, f.name = p.1) (hsorted : Table.Sorted members)
    (hmembers : ∀ f ∈ d.fields, ∀ v, (f.name, v) ∈ members → ∀ j, c.toJson v = .ok j →
      ∀ field, c.ofJsonShape j f.shape field = .ok v)
    (hj : c.toJson (.object d.name members) = .ok j) (field : String) :
    c.ofJsonShape j (.one (.definition index)) field = .ok (.object d.name members) := by
  obtain ⟨js, hjs, rfl⟩ := toJson_object_eq_ok_iff.mp hj
  have hback :
      List.Forall₂ (fun p q => c.memberOfJson d p = .ok q) js
        ((c.arrange d.name members).map some) := by
    rw [List.forall₂_map_right_iff]
    refine Except.forall₂_imp_of_mem hjs.flip ?_
    rintro ⟨_, j⟩ _ ⟨name, v⟩ hp ⟨rfl, hj⟩
    have hp := (mem_arrange hsorted).mp hp
    obtain ⟨f, hf⟩ := Definition.exists_field?_iff.mpr (hdeclared _ hp)
    obtain ⟨hmem, hname⟩ := Definition.of_field? hf
    exact memberOfJson_eq_ok_iff.mpr ⟨f, hf,
      .inr ⟨toJson_ne_null hj, v, hmembers f hmem v (hname ▸ hp) j hj _, rfl⟩⟩
  have hqs : Table.ofPairs ((c.arrange d.name members).map some).reduceOption = members := by
    rw [List.reduceOption, List.filterMap_map]
    simpa using ofPairs_arrange hsorted
  exact hqs ▸ ofJsonShape_of_stands (.object hd hk hback) field

/-- A value comes back from its document, taken as the type that its parts are of. By induction on
how they are. -/
theorem Typed.ofJsonShape (hv : Typed c shape v) (hordered : v.Ordered) (hj : c.toJson v = .ok j)
    (field : String) : c.ofJsonShape j shape field = .ok v := by
  induction hv generalizing j field with
  | bool | byte | int | uint | float | string =>
    exact ofJsonShape_of_stands
      (.primitive (primitiveOf?_of_toJson (by constructor) (by simp) hj)) field
  | enum hd hk hf =>
    obtain rfl := Except.ok.inj hj
    obtain ⟨g, hg⟩ := Definition.exists_field?_iff.mpr ⟨_, hf, rfl⟩
    exact ofJsonShape_of_stands
      (.entry hd hk (by simp [entryOf?, hg, (Definition.of_field? hg).2])) field
  | object hd hk hdeclared _ ih =>
    obtain ⟨hsorted, hordered⟩ := Value.ordered_object_iff.mp hordered
    refine ofJsonShape_object_of_toJson hd hk hdeclared hsorted
      (fun f hf v hv j hj field => ?_) hj field
    exact ih f hf v hv (hordered _ hv) hj field
  | array _ ih =>
    exact ofJsonShape_array_of_toJson
      (fun v hv j hj => ih v hv (Value.ordered_array_iff.mp hordered v hv) hj "") hj field

/-- A value of a type, whose objects are tables, has a document exactly if its floats are finite;
and it comes back from the document as it was, floats by their bits, with the members of deprecated
fields and without those that a struct lacked. -/
theorem ofJson_toJson {name : String} (htype : c.typeOf? name = some type)
    (hv : Typed c (.one type) v) (hordered : v.Ordered) :
    ((∃ j, c.toJson v = .ok j) ↔ v.Finite) ∧ ∀ j, c.toJson v = .ok j → c.ofJson name j = .ok v := by
  refine ⟨exists_toJson_iff hordered, fun j hj => ?_⟩
  rw [ofJson, htype]
  exact hv.ofJsonShape hordered hj ""

/-- A struct that lacks a member and has a zero below zero, an array in a deprecated field, and a
text with a zero byte. -/
theorem ofJson_toJson_log :
    let log : Definition := ⟨"Log", .message, [⟨"note", .string, false, false, 1⟩,
      ⟨"old", .definition 0, true, true, 2⟩, ⟨"at", .definition 2, false, false, 3⟩]⟩
    let c : Catalog := ⟨[⟨"Grade", .enum, [⟨"LOW", .uint, false, false, 0⟩]⟩, log,
      ⟨"Point", .struct, [⟨"x", .float, false, false, 1⟩, ⟨"y", .float, false, false, 2⟩]⟩]⟩
    let v : Value := .object "Log" [("at", .object "Point" [("y", .float ⟨0x80000000⟩)]),
      ("note", .string "\x00"), ("old", .array [.enum "Grade" "LOW"])]
    let j : Json := .object [("note", .string "\x00"), ("old", .array [.string "LOW"]),
      ("at", .object [("y", .number (.real ⟨0x8000000000000000⟩))])]
    c.typeOf? "Log" = some (.definition 1) ∧ Typed c (.one (.definition 1)) v ∧
      v.Ordered ∧ v.Finite ∧ c.toJson v = .ok j ∧ c.ofJson "Log" j = .ok v := by
  intro log c v j
  have htype : c.typeOf? "Log" = some (.definition 1) := by decide +kernel
  have hpoint : Typed c (.one (.definition 2)) (.object "Point" [("y", .float ⟨0x80000000⟩)]) := by
    refine .object (show c.definitions[2]? = some ⟨"Point", .struct, _⟩ from rfl) (by decide)
      (by simp) ?_
    simpa [Field.shape] using Typed.float _
  have hold : Typed c (.many (.definition 0)) (.array [.enum "Grade" "LOW"]) := by
    refine .array fun v hv => ?_
    obtain rfl := List.mem_singleton.mp hv
    exact .enum (d := ⟨"Grade", .enum, [⟨"LOW", .uint, false, false, 0⟩]⟩) rfl rfl
      List.mem_cons_self
  have hv : Typed c (.one (.definition 1)) v := by
    refine .object (show c.definitions[1]? = some log from rfl) (by decide) (by simp [log]) ?_
    simpa [log, Field.shape] using ⟨.string _, hold, hpoint⟩
  have hpointOrdered : (Value.object "Point" [("y", .float ⟨0x80000000⟩)]).Ordered :=
    Value.ordered_object_iff.mpr ⟨List.pairwise_singleton _ _,
      by simpa using Value.ordered_of_depth rfl⟩
  have hordered : v.Ordered := by
    refine Value.ordered_object_iff.mpr ⟨?_, ?_⟩
    · show List.Pairwise _ _
      decide +kernel
    · simp only [List.forall_mem_cons, List.not_mem_nil, Value.ordered_array_iff]
      exact ⟨hpointOrdered, Value.ordered_of_depth rfl, ⟨Value.ordered_of_depth rfl, by simp⟩,
        by simp⟩
  have hj : c.toJson v = .ok j := by rfl
  obtain ⟨hfinite, hback⟩ := ofJson_toJson htype hv hordered
  exact ⟨htype, hv, hordered, hfinite.mp ⟨j, hj⟩, hj, hback j hj⟩

end Catalog

end WireSchema
