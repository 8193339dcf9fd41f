import Mathlib.Data.List.Perm.Basic
import Mathlib.Logic.Relation
import WireSchema.Proofs.Value.Json
import WireSchema.Proofs.Value.OfJson

/-! Documents that say the same. The members of an object may stand in any order, and one that is
null may as well be left out; a document that is changed in such places only stands for the same
value, and is written as the same bytes. -/

namespace WireSchema

/-- The second document has the members of one object, at any depth, in another order. The names of
its members differ, so that no order says which of two members counts. -/
inductive Json.Permuted : Json → Json → Prop
  | members {members members' : List (String × Json)} (hnames : (members.map Prod.fst).Nodup)
      (h : members.Perm members') : Permuted (.object members) (.object members')
  | item {before after : List Json} {j j' : Json} (h : Permuted j j') :
      Permuted (.array (before ++ j :: after)) (.array (before ++ j' :: after))
  | member {before after : List (String × Json)} {name : String} {j j' : Json} (h : Permuted j j') :
      Permuted (.object (before ++ (name, j) :: after)) (.object (before ++ (name, j') :: after))

theorem Json.Permuted.ne_null {j j' : Json} (h : j.Permuted j') : j ≠ .null ∧ j' ≠ .null := by
  cases h <;> exact ⟨nofun, nofun⟩

namespace Catalog

variable {c : Catalog} {d : Definition} {shape : Shape} {type : TypeRef} {v : Value} {j j' : Json}
  {field : String} {js js' : List (String × Json)} {qs : List (Option (String × Value))}

/-- The second document, taken as a shape, has one member more than the first in one object, at any
depth: null for a field of the definition that the object is taken as, of which there was no
member. -/
inductive Padded (c : Catalog) : Shape → Json → Json → Prop
  | null {index : Nat} {d : Definition} {f : Field} {before after : List (String × Json)}
      (hd : c.definitions[index]? = some d) (hf : f ∈ d.fields)
      (hnew : f.name ∉ (before ++ after).map Prod.fst) :
      Padded c (.one (.definition index)) (.object (before ++ after))
        (.object (before ++ (f.name, .null) :: after))
  | item {type : TypeRef} {before after : List Json} {j j' : Json} (h : Padded c (.one type) j j') :
      Padded c (.many type) (.array (before ++ j :: after)) (.array (before ++ j' :: after))
  | member {index : Nat} {d : Definition} {f : Field} {name : String}
      {before after : List (String × Json)} {j j' : Json} (hd : c.definitions[index]? = some d)
      (hf : d.field? name = some f) (h : Padded c f.shape j j') :
      Padded c (.one (.definition index)) (.object (before ++ (name, j) :: after))
        (.object (before ++ (name, j') :: after))

/-- One document comes from the other, taken as a type, by members in other orders and by nulls put
in or left out. -/
def Restates (c : Catalog) (type : TypeRef) : Json → Json → Prop :=
  Relation.EqvGen fun j j' => j.Permuted j' ∨ Padded c (.one type) j j'

/-! ### Arrays and objects -/

theorem stands_array_iff {items : List Json} : Stands c shape (.array items) v ↔
    ∃ type vs, shape = .many type ∧ v = .array vs ∧
      List.Forall₂ (fun j v => c.ofJsonShape j (.one type) "" = .ok v) items vs := by
  constructor
  · intro h
    cases h with
    | primitive h => simp at h
    | entry _ _ h => simp [entryOf?] at h
    | array hvs => exact ⟨_, _, rfl, rfl, hvs⟩
  · rintro ⟨type, vs, rfl, rfl, hvs⟩
    exact .array hvs

theorem stands_object_iff : Stands c shape (.object js) v ↔
    ∃ index d qs, shape = .one (.definition index) ∧ c.definitions[index]? = some d ∧
      d.kind ≠ .enum ∧ v = .object d.name (Table.ofPairs qs.reduceOption) ∧
      List.Forall₂ (fun p q => c.memberOfJson d p = .ok q) js qs := by
  constructor
  · intro h
    cases h with
    | primitive h => simp at h
    | entry _ _ h => simp [entryOf?] at h
    | object hd hk hqs => exact ⟨_, _, _, rfl, hd, hk, rfl, hqs⟩
  · rintro ⟨index, d, qs, rfl, hd, hk, rfl, hqs⟩
    exact .object hd hk hqs

theorem stands_object_iff_of_getElem? {index : Nat} (hd : c.definitions[index]? = some d) :
    Stands c (.one (.definition index)) (.object js) v ↔ ∃ qs, d.kind ≠ .enum ∧
      v = .object d.name (Table.ofPairs qs.reduceOption) ∧
      List.Forall₂ (fun p q => c.memberOfJson d p = .ok q) js qs := by
  rw [stands_object_iff]
  constructor
  · rintro ⟨_, d', qs, ⟨⟩, hd', hk, hv, hqs⟩
    obtain rfl : d = d' := Option.some.inj (hd.symm.trans hd')
    exact ⟨qs, hk, hv, hqs⟩
  · rintro ⟨qs, hk, hv, hqs⟩
    exact ⟨index, d, qs, rfl, hd, hk, hv, hqs⟩

/-- The members that a document gives to an object are named by members of the document, each by
one. -/
theorem map_fst_sublist (hqs : List.Forall₂ (fun p q => c.memberOfJson d p = .ok q) js qs) :
    (qs.reduceOption.map Prod.fst).Sublist (js.map Prod.fst) := by
  induction hqs with
  | nil => exact .slnil
  | @cons p q js qs hpq _ ih =>
    obtain ⟨f, -, ⟨-, rfl⟩ | ⟨-, v, -, rfl⟩⟩ := memberOfJson_eq_ok_iff.mp hpq
    · rw [List.reduceOption_cons_of_none]
      exact ih.cons _
    · rw [List.reduceOption_cons_of_some]
      exact ih.cons_cons _

theorem Stands.of_perm (h : Stands c shape (.object js) v) (hnames : (js.map Prod.fst).Nodup)
    (hperm : js.Perm js') : Stands c shape (.object js') v := by
  obtain ⟨index, d, qs, rfl, hd, hk, rfl, hqs⟩ := stands_object_iff.mp h
  obtain ⟨qs', hqs', hperm'⟩ := List.perm_comp_forall₂ hperm.symm hqs
  have htable : Table.ofPairs qs.reduceOption = Table.ofPairs qs'.reduceOption :=
    Table.ofPairs_perm (hperm'.symm.filterMap id) ((map_fst_sublist hqs).nodup hnames)
  rw [htable]
  exact .object hd hk hqs'

/-- A member may be replaced by one that stands for the same, if neither is null. -/
theorem memberOfJson_congr {name : String} (hj : j ≠ .null) (hj' : j' ≠ .null)
    (h : ∀ f, d.field? name = some f → ∀ v, c.ofJsonShape j f.shape f.name = .ok v ↔
      c.ofJsonShape j' f.shape f.name = .ok v) (q : Option (String × Value)) :
    c.memberOfJson d (name, j) = .ok q ↔ c.memberOfJson d (name, j') = .ok q := by
  rw [memberOfJson_eq_ok_iff, memberOfJson_eq_ok_iff]
  refine exists_congr fun f => and_congr_right fun hf => ?_
  simp [hj, hj', h f hf]

/-! ### Changed documents -/

theorem Padded.ne_null (h : Padded c shape j j') : j ≠ .null ∧ j' ≠ .null := by
  cases h <;> exact ⟨nofun, nofun⟩

/-- A document with members in another order stands for the same as any shape. By induction on how
deep they are. -/
theorem stands_iff_of_permuted (h : Json.Permuted j j') (shape : Shape) (v : Value) :
    Stands c shape j v ↔ Stands c shape j' v := by
  induction h generalizing shape v with
  | members hnames hperm =>
    have hnames' := (hperm.map Prod.fst).nodup_iff.mp hnames
    exact ⟨fun h => h.of_perm hnames hperm, fun h => h.of_perm hnames' hperm.symm⟩
  | item h ih =>
    simp only [stands_array_iff]
    refine exists_congr fun type => exists_congr fun vs => ?_
    rw [Except.forall₂_middle_iff fun v => ?_]
    rw [ofJsonShape_eq_ok_iff, ofJsonShape_eq_ok_iff, ih]
  | @member before after name j j' h ih =>
    simp only [stands_object_iff]
    refine exists_congr fun index => exists_congr fun d => exists_congr fun qs => ?_
    have hmember : ∀ q, c.memberOfJson d (name, j) = .ok q ↔
        c.memberOfJson d (name, j') = .ok q := by
      refine memberOfJson_congr h.ne_null.1 h.ne_null.2 fun f _ v => ?_
      rw [ofJsonShape_eq_ok_iff, ofJsonShape_eq_ok_iff, ih]
    rw [Except.forall₂_middle_iff hmember]

/-- A null for a field gives nothing to the object. By induction on how deep it is. -/
theorem stands_iff_of_padded (h : Padded c shape j j') (v : Value) :
    Stands c shape j v ↔ Stands c shape j' v := by
  induction h generalizing v with
  | @null index d f before after hd hf =>
    obtain ⟨g, hg⟩ := Definition.exists_field?_iff.mpr ⟨f, hf, rfl⟩
    have hnull (q : Option (String × Value)) : c.memberOfJson d (f.name, .null) = .ok q ↔
        q = none := by
      rw [memberOfJson_null hg]
      simp [eq_comm]
    rw [stands_object_iff_of_getElem? hd, stands_object_iff_of_getElem? hd]
    simp only [Except.forall₂_append_iff, List.forall₂_cons_left_iff, hnull]
    constructor
    · rintro ⟨_, hk, rfl, qs, qs', rfl, hqs, hqs'⟩
      refine ⟨_, hk, ?_, qs, _, rfl, hqs, none, qs', rfl, hqs', rfl⟩
      rw [List.reduceOption_append, List.reduceOption_append, List.reduceOption_cons_of_none]
    · rintro ⟨_, hk, rfl, qs, _, rfl, hqs, _, qs', rfl, hqs', rfl⟩
      refine ⟨_, hk, ?_, qs, qs', rfl, hqs, hqs'⟩
      rw [List.reduceOption_append, List.reduceOption_append, List.reduceOption_cons_of_none]
  | @item type before after j j' h ih =>
    simp only [stands_array_iff]
    refine exists_congr fun type' => exists_congr fun vs => ?_
    rw [and_congr_right_iff]
    rintro ⟨⟩
    rw [Except.forall₂_middle_iff fun v => ?_]
    rw [ofJsonShape_eq_ok_iff, ofJsonShape_eq_ok_iff, ih]
  | @member index d f name before after j j' hd hf h ih =>
    rw [stands_object_iff_of_getElem? hd, stands_object_iff_of_getElem? hd]
    refine exists_congr fun qs => ?_
    have hmember : ∀ q, c.memberOfJson d (name, j) = .ok q ↔
        c.memberOfJson d (name, j') = .ok q := by
      refine memberOfJson_congr h.ne_null.1 h.ne_null.2 fun g hg v => ?_
      obtain rfl : f = g := Option.some.inj (hf.symm.trans hg)
      rw [ofJsonShape_eq_ok_iff, ofJsonShape_eq_ok_iff, ih]
    rw [Except.forall₂_middle_iff hmember]

/-- A document that says the same stands for the same value. -/
theorem stands_iff_of_restates (h : Restates c type j j') (v : Value) :
    Stands c (.one type) j v ↔ Stands c (.one type) j' v := by
  induction h with
  | rel j j' h =>
    rcases h with h | h
    · exact stands_iff_of_permuted h _ v
    · exact stands_iff_of_padded h v
  | refl j => exact Iff.rfl
  | symm j j' _ ih => exact ih.symm
  | trans j j' j'' _ _ ih ih' => exact ih.trans ih'

/-- Only what a document says is written: with its members in other orders, and with nulls put in or
left out, it is written as the same bytes. -/
theorem encodeJson_of_restates {name : String} (htype : c.typeOf? name = some type)
    (h : Restates c type j j') {bytes : List UInt8}
    (hj : (c.encodeJson name j).result = .ok bytes) :
    (c.encodeJson name j').result = .ok bytes := by
  obtain ⟨v, hv, hbytes⟩ := encodeJson_eq_ok_iff.mp hj
  refine encodeJson_eq_ok_iff.mpr ⟨v, ?_, hbytes⟩
  rw [ofJson, htype] at hv ⊢
  exact ofJsonShape_eq_ok_iff.mpr ((stands_iff_of_restates h v).mp (stands_of_ofJsonShape hv))

/-- Members in another order, outside and inside an array, and a null for a field that had no
member. -/
theorem encodeJson_of_restates_track :
    let c : Catalog :=
      ⟨[⟨"Point", .struct, [⟨"x", .int, false, false, 1⟩, ⟨"y", .int, false, false, 2⟩]⟩,
        ⟨"Track", .message, [⟨"points", .definition 0, true, false, 1⟩,
          ⟨"note", .string, false, false, 2⟩, ⟨"speed", .uint, false, false, 3⟩]⟩]⟩
    let j : Json := .object [("note", .string "a"),
      ("points", .array [.object [("x", Json.int 7), ("y", Json.int 8)]])]
    let j' : Json := .object [("points", .array [.object [("y", Json.int 8), ("x", Json.int 7)]]),
      ("speed", .null), ("note", .string "a")]
    c.typeOf? "Track" = some (.definition 1) ∧ Restates c (.definition 1) j j' ∧
      (c.encodeJson "Track" j).result = .ok [1, 1, 14, 16, 2, 97, 0, 0] ∧
      (c.encodeJson "Track" j').result = .ok [1, 1, 14, 16, 2, 97, 0, 0] := by
  intro c j j'
  have htype : c.typeOf? "Track" = some (.definition 1) := by decide +kernel
  have hj : (c.encodeJson "Track" j).result = .ok [1, 1, 14, 16, 2, 97, 0, 0] :=
    encodeJson_eq_ok_iff.mpr ⟨_, rfl, by decide +kernel⟩
  let point : Json := .object [("x", Json.int 7), ("y", Json.int 8)]
  let point' : Json := .object [("y", Json.int 8), ("x", Json.int 7)]
  have houter : j.Permuted (.object [("points", .array [point]), ("note", .string "a")]) :=
    .members (by decide) (.swap ..)
  have hnull :
      Padded c (.one (.definition 1)) (.object [("points", .array [point]), ("note", .string "a")])
        (.object [("points", .array [point]), ("speed", .null), ("note", .string "a")]) :=
    @Padded.null c 1 _ ⟨"speed", .uint, false, false, 3⟩ [_] [_] rfl (by simp) (by simp)
  have hinner :
      Json.Permuted (.object [("points", .array [point]), ("speed", .null), ("note", .string "a")])
        j' :=
    @Json.Permuted.member [] _ _ _ _
      (@Json.Permuted.item [] [] point point' (.members (by decide) (.swap ..)))
  have hrestates : Restates c (.definition 1) j j' :=
    .trans _ _ _ (.rel _ _ (.inl houter))
      (.trans _ _ _ (.rel _ _ (.inr hnull)) (.rel _ _ (.inl hinner)))
  exact ⟨htype, hrestates, hj, encodeJson_of_restates htype hrestates hj⟩

end Catalog

end WireSchema
