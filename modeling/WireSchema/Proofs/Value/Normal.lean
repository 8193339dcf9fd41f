import WireSchema.Proofs.Primitive
import WireSchema.Proofs.Value.Conformity

/-! What a value comes back as once it has been written, and the limits within which it does. The
normal form of a value has no members of deprecated message fields and no floats with a zero
exponent field but zero itself; it is what is written of the value. -/

namespace WireSchema.Catalog

variable {c : Catalog} {d : Definition} {members : List (String × Value)}

/-- Whether a member of an object of a type is left out: its field is deprecated, and the object is
a message. -/
def drops (c : Catalog) (type name : String) : Bool :=
  match c.definition? type with
  | some d => d.kind = .message && (d.field? name).any (·.isDeprecated)
  | none => false

mutual

/-- What a value comes back as: members that are left out are gone, and floats with a zero exponent
field are zero. -/
def normal (c : Catalog) : Value → Value
  | .float x => .float x.flush
  | .array items => .array (normalItems c items)
  | .object type members => .object type (normalMembers c type members)
  | v => v

def normalItems (c : Catalog) : List Value → List Value
  | [] => []
  | v :: rest => normal c v :: normalItems c rest

def normalMembers (c : Catalog) (type : String) : List (String × Value) → List (String × Value)
  | [] => []
  | (name, v) :: rest =>
    if c.drops type name then normalMembers c type rest
    else (name, normal c v) :: normalMembers c type rest

end

theorem normal_array (items : List Value) :
    c.normal (.array items) = .array (items.map c.normal) := by
  rw [normal]
  congr 1
  induction items with
  | nil => rfl
  | cons v items ih => rw [normalItems, ih, List.map_cons]

theorem normalMembers_eq (type : String) (members : List (String × Value)) :
    c.normalMembers type members =
      (members.filter fun p => !c.drops type p.1).map fun p => (p.1, c.normal p.2) := by
  induction members with
  | nil => rfl
  | cons p members ih =>
    rw [normalMembers, ih]
    cases hdrops : c.drops type p.1 <;> simp [hdrops]

theorem sorted_normalMembers (type : String) (h : Table.Sorted members) :
    Table.Sorted (c.normalMembers type members) := by
  rw [normalMembers_eq]
  exact List.Pairwise.map _ (fun _ _ hlt => hlt) (h.filter _)

/-- In a valid catalog, what is left out are the deprecated fields of messages. -/
theorem Valid.drops_eq {f : Field} (hc : c.Valid) (hd : d ∈ c.definitions) (hf : f ∈ d.fields) :
    c.drops d.name f.name = true ↔ d.kind = .message ∧ f.isDeprecated = true := by
  simp [drops, hc.definition?_name hd, hc.field?_name hd hf]

theorem Valid.mem_normalMembers (hc : c.Valid) (hd : d ∈ c.definitions)
    (hdeclared : ∀ p ∈ members, ∃ f ∈ d.fields, f.name = p.1) (hsorted : Table.Sorted members)
    {p : String × Value} : p ∈ c.normalMembers d.name members ↔
      ∃ q ∈ d.carried members, (q.1.name, c.normal q.2) = p := by
  rw [normalMembers_eq]
  simp only [List.mem_map, List.mem_filter, Bool.not_eq_true']
  constructor
  · rintro ⟨⟨name, v⟩, ⟨hp, hdrops⟩, rfl⟩
    obtain ⟨f, hf, rfl⟩ := hdeclared _ hp
    refine ⟨(f, v), Definition.mem_carried.mpr ⟨hf, Table.get?_of_mem hsorted hp, fun hk => ?_⟩,
      rfl⟩
    have := mt (hc.drops_eq hd hf).mpr (by simpa using hdrops)
    simpa [hk] using this
  · rintro ⟨⟨f, v⟩, hq, rfl⟩
    obtain ⟨hf, hv, hdep⟩ := Definition.mem_carried.mp hq
    refine ⟨(f.name, v), ⟨Table.mem_of_get? hv, ?_⟩, rfl⟩
    apply Bool.eq_false_iff.mpr
    intro hdrops
    obtain ⟨hk, htrue⟩ := (hc.drops_eq hd hf).mp hdrops
    simp [hdep hk] at htrue

theorem Valid.nodup_carried (hc : c.Valid) (hd : d ∈ c.definitions)
    (members : List (String × Value)) :
    ((d.carried members).map fun q => q.1.name).Nodup := by
  have hnodup := ((Definition.carried_sublist d members).map Field.name).nodup (hc.fieldNames d hd)
  rwa [List.map_map] at hnodup

/-- The normal form of the members is the table of those that are carried. -/
theorem Valid.normalMembers_eq_ofPairs (hc : c.Valid) (hd : d ∈ c.definitions)
    (hdeclared : ∀ p ∈ members, ∃ f ∈ d.fields, f.name = p.1) (hsorted : Table.Sorted members) :
    c.normalMembers d.name members =
      Table.ofPairs ((d.carried members).map fun q => (q.1.name, c.normal q.2)) := by
  have hnodup : (((d.carried members).map fun q => (q.1.name, c.normal q.2)).map
      Prod.fst).Nodup := by
    rw [List.map_map]
    exact hc.nodup_carried hd members
  have hleft := sorted_normalMembers (c := c) d.name hsorted
  refine Table.ext hleft (Table.sorted_ofPairs _) fun k => Option.ext fun v => ?_
  rw [Table.get?_ofPairs_eq_some_iff hnodup, List.mem_map,
    ← hc.mem_normalMembers hd hdeclared hsorted]
  exact ⟨Table.mem_of_get?, Table.get?_of_mem hleft⟩

theorem Valid.normal_object (hc : c.Valid) (hd : d ∈ c.definitions)
    (hdeclared : ∀ p ∈ members, ∃ f ∈ d.fields, f.name = p.1) (hsorted : Table.Sorted members) :
    c.normal (.object d.name members) =
      .object d.name
        (Table.ofPairs ((d.carried members).map fun q => (q.1.name, c.normal q.2))) := by
  rw [normal, hc.normalMembers_eq_ofPairs hd hdeclared hsorted]

/-! ### The limits of reading -/

/-- A value of a shape, if it is an array of elements that take no bytes, is not too long. -/
def CountFits (c : Catalog) : Shape → Value → Prop
  | .many type, .array items => c.isZeroWidth type = true → items.length ≤ maxZeroWidthLength
  | _, _ => True

/-- No member of an object in the value is too long an array of elements that take no bytes. -/
def CountsFit (c : Catalog) (v : Value) : Prop :=
  ∀ type members, Value.Part (.object type members) v → ∀ d, c.definition? type = some d →
    ∀ f ∈ d.fields, ∀ w, (f.name, w) ∈ members → c.CountFits f.shape w

/-- What can be read back at a shape, where containers may nest so deep. -/
structure Fits (c : Catalog) (levels : Nat) (shape : Shape) (v : Value) : Prop where
  depth : v.depth ≤ levels
  count : c.CountFits shape v
  counts : c.CountsFit v

theorem countFits_one (type : TypeRef) (v : Value) : c.CountFits (.one type) v := by
  cases v <;> trivial

theorem countsFit_of_depth {v : Value} (hv : v.depth = 0) : c.CountsFit v :=
  fun type members hpart => by
    rw [← hpart.eq_of_depth hv] at hv
    exact absurd hv (Nat.ne_of_gt (Value.depth_object_pos type members))

theorem countsFit_array_iff {items : List Value} :
    c.CountsFit (.array items) ↔ ∀ v ∈ items, c.CountsFit v := by
  constructor
  · exact fun h v hv type members hpart => h type members (.item hv hpart)
  · intro h type members hpart
    cases hpart with
    | item hv hpart => exact h _ hv type members hpart

theorem Valid.countsFit_object_iff (hc : c.Valid) (hd : d ∈ c.definitions) :
    c.CountsFit (.object d.name members) ↔
      (∀ f ∈ d.fields, ∀ w, (f.name, w) ∈ members → c.CountFits f.shape w) ∧
        ∀ p ∈ members, c.CountsFit p.2 := by
  constructor
  · intro h
    refine ⟨h d.name members (.self _) d (hc.definition?_name hd), fun p hp => ?_⟩
    exact fun type ms hpart => h type ms (.member hp hpart)
  · rintro ⟨hfields, h⟩ type ms hpart e he
    cases hpart with
    | self =>
      obtain rfl : d = e := Option.some.inj ((hc.definition?_name hd).symm.trans he)
      exact hfields
    | member hp hpart => exact h _ hp type ms hpart e he

/-- A value that is no container always fits. -/
theorem fits_of_depth {levels : Nat} {type : TypeRef} {v : Value} (hv : v.depth = 0) :
    c.Fits levels (.one type) v :=
  ⟨by omega, countFits_one type v, countsFit_of_depth hv⟩

theorem not_fits_zero {shape : Shape} {v : Value} (hv : 0 < v.depth) : ¬ c.Fits 0 shape v :=
  fun h => by
    have := h.depth
    omega

theorem fits_array_iff {levels : Nat} {type : TypeRef} {items : List Value} :
    c.Fits (levels + 1) (.many type) (.array items) ↔
      (c.isZeroWidth type = true → items.length ≤ maxZeroWidthLength) ∧
        ∀ v ∈ items, c.Fits levels (.one type) v := by
  constructor
  · rintro ⟨hdepth, hcount, hcounts⟩
    refine ⟨hcount, fun v hv => ⟨?_, countFits_one type v, ?_⟩⟩
    · exact Value.depth_array_le_iff.mp hdepth v hv
    · exact countsFit_array_iff.mp hcounts v hv
  · rintro ⟨hcount, h⟩
    refine ⟨?_, hcount, ?_⟩
    · exact Value.depth_array_le_iff.mpr fun v hv => (h v hv).depth
    · exact countsFit_array_iff.mpr fun v hv => (h v hv).counts

/-- The normal form of an object fits if that of each member that is carried does. -/
theorem Valid.fits_normal_object_iff (hc : c.Valid) {index levels : Nat}
    (hd : c.definitions[index]? = some d)
    (hdeclared : ∀ p ∈ members, ∃ f ∈ d.fields, f.name = p.1) (hsorted : Table.Sorted members) :
    c.Fits (levels + 1) (.one (.definition index)) (c.normal (.object d.name members)) ↔
      ∀ q ∈ d.carried members, c.Fits levels q.1.shape (c.normal q.2) := by
  have hd' := List.mem_of_getElem? hd
  have hmem : ∀ {p}, p ∈ c.normalMembers d.name members ↔ _ :=
    hc.mem_normalMembers hd' hdeclared hsorted
  rw [normal]
  constructor
  · rintro ⟨hdepth, -, hcounts⟩ ⟨f, v⟩ hq
    have hp := hmem.mpr ⟨_, hq, rfl⟩
    obtain ⟨hfields, hall⟩ := (hc.countsFit_object_iff hd').mp hcounts
    refine ⟨Value.depth_object_le_iff.mp hdepth _ hp, ?_, hall _ hp⟩
    exact hfields f (Definition.mem_carried.mp hq).1 _ hp
  · intro h
    refine ⟨Value.depth_object_le_iff.mpr fun p hp => ?_, countFits_one _ _, ?_⟩
    · obtain ⟨q, hq, rfl⟩ := hmem.mp hp
      exact (h q hq).depth
    · refine (hc.countsFit_object_iff hd').mpr ⟨fun f hf w hw => ?_, fun p hp => ?_⟩
      · obtain ⟨⟨g, v⟩, hq, hgw⟩ := hmem.mp hw
        obtain ⟨hname, rfl⟩ := Prod.mk.injEq .. ▸ hgw
        obtain rfl := hc.field_eq hd' (Definition.mem_carried.mp hq).1 hf hname
        exact (h _ hq).count
      · obtain ⟨q, hq, rfl⟩ := hmem.mp hp
        exact (h q hq).counts

end WireSchema.Catalog
