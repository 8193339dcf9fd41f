import WireSchema.Proofs.Value.RoundTrip

/-! The values that can be written as a type. A catalog may be put together by hand, so that places
lead nowhere and names repeat; what can be written is said in the same words of all of them: each
shape asks something of a value, and of each of its parts that it be of a shape again. -/

namespace WireSchema.Catalog

variable {c : Catalog} {shape : Shape} {index : Nat} {d : Definition}
  {part : Shape → Value → Prop} {v : Value}

/-- What a definition asks of a value, given what is asked of the parts. A struct has the names of
its fields and no others, a message has some of them; in a message the member of a deprecated field
may be anything. -/
def Definition.Admits (d : Definition) (part : Shape → Value → Prop) (v : Value) : Prop :=
  match d.kind with
  | .enum => ∃ f ∈ d.fields, v = .enum d.name f.name
  | .struct => ∃ members, v = .object d.name members ∧
      (∀ name, name ∈ members.map Prod.fst ↔ name ∈ d.fields.map (·.name)) ∧
      ∀ f ∈ d.fields, ∀ w, Table.get? f.name members = some w → part f.shape w
  | .message => ∃ members, v = .object d.name members ∧
      (∀ name ∈ members.map Prod.fst, name ∈ d.fields.map (·.name)) ∧
      ∀ f ∈ d.fields, f.isDeprecated = false → ∀ w, Table.get? f.name members = some w →
        part f.shape w

/-- What a shape asks of a value, given what is asked of the parts. -/
def Admits (c : Catalog) (part : Shape → Value → Prop) : Shape → Value → Prop
  | .one .bool, v => ∃ b, v = .bool b
  | .one .byte, v => ∃ b, v = .byte b
  | .one .int, v => ∃ n, v = .int n
  | .one .uint, v => ∃ n, v = .uint n
  | .one .float, v => ∃ x, v = .float x
  | .one .string, v => ∃ s, v = .string s ∧ Char.ofNat 0 ∉ s.toList
  | .one (.definition index), v => ∃ d, c.definitions[index]? = some d ∧ d.Admits part v
  | .many type, v => ∃ items, v = .array items ∧ ∀ w ∈ items, part (.one type) w

/-! ### Definitions -/

theorem Definition.declared_iff {members : List (String × Value)} :
    (∀ p ∈ members, ∃ f ∈ d.fields, f.name = p.1) ↔
      ∀ name ∈ members.map Prod.fst, name ∈ d.fields.map (·.name) := by
  simp

theorem Definition.admits_of_conforms (hd : c.definitions[index]? = some d)
    (h : Conforms c (.one (.definition index)) v) : d.Admits (Conforms c) v := by
  cases h with
  | enum he hk hentry =>
    obtain rfl := Option.some.inj (hd.symm.trans he)
    rw [Admits, hk]
    obtain ⟨hf, rfl⟩ := of_field? hentry
    exact ⟨_, hf, rfl⟩
  | struct he hk hdeclared hpresent hmembers =>
    obtain rfl := Option.some.inj (hd.symm.trans he)
    rw [Admits, hk]
    refine ⟨_, rfl, fun name => ⟨declared_iff.mp hdeclared name, fun hname => ?_⟩, hmembers⟩
    obtain ⟨f, hf, rfl⟩ := List.mem_map.mp hname
    obtain ⟨w, hw⟩ := Option.isSome_iff_exists.mp (hpresent f hf)
    exact List.mem_map_of_mem (Table.mem_of_get? hw)
  | message he hk hdeclared hmembers =>
    obtain rfl := Option.some.inj (hd.symm.trans he)
    rw [Admits, hk]
    exact ⟨_, rfl, declared_iff.mp hdeclared, hmembers⟩

theorem Definition.conforms_of_admits (hd : c.definitions[index]? = some d)
    (h : d.Admits (Conforms c) v) : Conforms c (.one (.definition index)) v := by
  cases hk : d.kind with
  | enum =>
    rw [Admits, hk] at h
    obtain ⟨f, hf, rfl⟩ := h
    obtain ⟨g, hg⟩ := exists_field?_iff.mpr ⟨f, hf, rfl⟩
    exact .enum hd hk hg
  | struct =>
    rw [Admits, hk] at h
    obtain ⟨members, rfl, hnames, hmembers⟩ := h
    refine .struct hd hk (declared_iff.mpr fun name => (hnames name).mp) (fun f hf => ?_) hmembers
    obtain ⟨p, hp, hname⟩ := List.mem_map.mp ((hnames f.name).mpr (List.mem_map_of_mem hf))
    rw [Option.isSome_iff_ne_none, Ne, Table.get?_eq_none_iff]
    exact fun h => h p hp hname
  | message =>
    rw [Admits, hk] at h
    obtain ⟨members, rfl, hnames, hmembers⟩ := h
    exact .message hd hk (declared_iff.mpr hnames) hmembers

/-- A place that leads nowhere has no values. -/
theorem exists_definition_of_conforms (h : Conforms c (.one (.definition index)) v) :
    ∃ d, c.definitions[index]? = some d := by
  cases h with
  | enum hd | struct hd | message hd => exact ⟨_, hd⟩

/-! ### Shapes -/

/-- Conformity asks of a value what its shape admits, and of its parts that they conform. -/
theorem conforms_iff_admits : Conforms c shape v ↔ c.Admits (Conforms c) shape v := by
  cases shape with
  | many type =>
    constructor
    · rintro ⟨⟩
      exact ⟨_, rfl, by assumption⟩
    · rintro ⟨items, rfl, hitems⟩
      exact .array hitems
  | one type =>
    cases type with
    | definition index =>
      constructor
      · intro h
        obtain ⟨d, hd⟩ := exists_definition_of_conforms h
        exact ⟨d, hd, Definition.admits_of_conforms hd h⟩
      · rintro ⟨d, hd, h⟩
        exact Definition.conforms_of_admits hd h
    | string =>
      constructor
      · rintro ⟨⟩
        exact ⟨_, rfl, by assumption⟩
      · rintro ⟨s, rfl, hs⟩
        exact .string hs
    | _ =>
      constructor
      · rintro ⟨⟩
        exact ⟨_, rfl⟩
      · rintro ⟨_, rfl⟩
        constructor

/-- Exactly the values that conform to a type can be written as it, by its place or by its name; and
conforming is what the shapes ask for, part by part. -/
theorem exists_encodeAs_iff_conforms (c : Catalog) :
    (∀ type v, (∃ bytes, (c.encodeAs type v).result = .ok bytes) ↔ Conforms c (.one type) v) ∧
    (∀ name v, (∃ bytes, (c.encode name v).result = .ok bytes) ↔
      ∃ type, c.typeOf? name = some type ∧ Conforms c (.one type) v) ∧
    ∀ shape v, Conforms c shape v ↔ c.Admits (Conforms c) shape v := by
  have hencodeAs (type : TypeRef) (v : Value) :
      (∃ bytes, (c.encodeAs type v).result = .ok bytes) ↔ Conforms c (.one type) v := by
    constructor
    · exact fun ⟨_, h⟩ => (encodeAs_eq_ok_iff.mp h).1
    · exact fun h => ⟨_, encodeAs_eq_ok_iff.mpr ⟨h, rfl⟩⟩
  refine ⟨hencodeAs, fun name v => ?_, fun shape v => conforms_iff_admits⟩
  simp only [encode_eq_ok_iff, ← hencodeAs]
  constructor
  · exact fun ⟨bytes, type, htype, h⟩ => ⟨type, htype, bytes, h⟩
  · exact fun ⟨type, htype, bytes, h⟩ => ⟨bytes, type, htype, h⟩

end WireSchema.Catalog
