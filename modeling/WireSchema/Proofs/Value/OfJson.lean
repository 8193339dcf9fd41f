import Mathlib.Data.List.ReduceOption
import WireSchema.Proofs.Catalog.Valid
import WireSchema.Proofs.Except
import WireSchema.Value.Json

/-! Values of documents. A document stands for a value of a shape in one of four ways: as a
primitive, as an entry of an enum, as an object with what its members stand for, or as an array of
what its items stand for. -/

namespace WireSchema.Catalog

variable {c : Catalog} {d : Definition} {shape : Shape} {type : TypeRef} {index : Nat}
  {v : Value} {j : Json} {field : String}

/-! ### Members -/

/-- What a member of a document gives to an object: nothing if it is null, and otherwise a member of
its name. -/
def memberOfJson (c : Catalog) (d : Definition) (member : String × Json) :
    Except JsonError (Option (String × Value)) :=
  match d.field? member.1, member.2 with
  | none, _ => .error (.unknownField d.name member.1)
  | some _, .null => .ok none
  | some f, j => (c.ofJsonShape j f.shape f.name).map fun v => some (f.name, v)

theorem memberOfJson_null {name : String} {f : Field} (hf : d.field? name = some f) :
    c.memberOfJson d (name, .null) = .ok none := by
  simp [memberOfJson, hf]

theorem memberOfJson_of_ne_null {name : String} {f : Field} (hf : d.field? name = some f)
    (hj : j ≠ .null) :
    c.memberOfJson d (name, j) =
      (c.ofJsonShape j f.shape f.name).map fun v => some (f.name, v) := by
  cases j with
  | null => exact absurd rfl hj
  | _ => simp [memberOfJson, hf]

/-- A member of a document gives nothing if it is null, or a member of its name. -/
theorem memberOfJson_eq_ok_iff {name : String} {q : Option (String × Value)} :
    c.memberOfJson d (name, j) = .ok q ↔
      ∃ f, d.field? name = some f ∧ (j = .null ∧ q = none ∨
        j ≠ .null ∧ ∃ v, c.ofJsonShape j f.shape f.name = .ok v ∧ q = some (name, v)) := by
  cases hf : d.field? name with
  | none => simp [memberOfJson, hf]
  | some f =>
    by_cases hj : j = .null
    · subst hj
      simp [memberOfJson_null hf, eq_comm]
    · rw [memberOfJson_of_ne_null hf hj, Except.map_eq_ok, (Definition.of_field? hf).2]
      simp [hj, eq_comm, (Definition.of_field? hf).2]

theorem itemsOfJson_eq (js : List Json) (type : TypeRef) :
    c.itemsOfJson js type = js.mapM fun j => c.ofJsonShape j (.one type) "" := by
  induction js with
  | nil => rfl
  | cons j js ih => rw [itemsOfJson, ih, List.mapM_cons]

/-- The members that a document gives to an object are put into its table one after the other. -/
theorem membersOfJson_eq (js : List (String × Json)) (members : List (String × Value)) :
    c.membersOfJson d js members = (js.mapM (c.memberOfJson d)).map fun qs =>
      qs.reduceOption.foldl (fun members p => Table.insert p.1 p.2 members) members := by
  induction js generalizing members with
  | nil => rfl
  | cons p js ih =>
    obtain ⟨name, j⟩ := p
    rw [List.mapM_cons]
    cases hf : d.field? name with
    | none =>
      simp only [membersOfJson, memberOfJson, hf]
      rfl
    | some f =>
      by_cases hj : j = .null
      · subst hj
        rw [memberOfJson_null hf]
        simp only [membersOfJson, hf, ih]
        cases js.mapM (c.memberOfJson d) <;> rfl
      · have hstep : c.membersOfJson d ((name, j) :: js) members = (do
            let value ← c.ofJsonShape j f.shape f.name
            c.membersOfJson d js (Table.insert f.name value members)) := by
          cases j with
          | null => exact absurd rfl hj
          | _ => simp only [membersOfJson, hf]
        rw [hstep, memberOfJson_of_ne_null hf hj]
        cases c.ofJsonShape j f.shape f.name with
        | error e => rfl
        | ok v =>
          show c.membersOfJson d js (Table.insert f.name v members) = _
          rw [ih]
          cases js.mapM (c.memberOfJson d) <;> rfl

/-! ### Documents -/

@[simp] theorem primitiveOf?_array (items : List Json) :
    primitiveOf? type (.array items) = none := by
  cases type <;> rfl

@[simp] theorem primitiveOf?_object (js : List (String × Json)) :
    primitiveOf? type (.object js) = none := by
  cases type <;> rfl

theorem ofJsonShape_primitive (htype : ∀ index, type ≠ .definition index) (field : String) :
    c.ofJsonShape j (.one type) field = match primitiveOf? type j with
      | some v => .ok v
      | none => .error (.mismatch (c.typeName type) j) := by
  cases type with
  | definition index => exact absurd rfl (htype index)
  | _ => cases j <;> rfl

theorem ofJsonShape_enum (hd : c.definitions[index]? = some d) (hk : d.kind = .enum)
    (field : String) :
    c.ofJsonShape j (.one (.definition index)) field = match entryOf? d j with
      | some v => .ok v
      | none => .error (.unknownEntry d.name j) := by
  cases j with
  | string s =>
    unfold ofJsonShape
    rw [hd]
    exact if_pos hk
  | _ => simp only [ofJsonShape, hd, hk, entryOf?, if_true]

theorem ofJsonShape_object (hd : c.definitions[index]? = some d) (hk : d.kind ≠ .enum)
    (js : List (String × Json)) (field : String) :
    c.ofJsonShape (.object js) (.one (.definition index)) field =
      (js.mapM (c.memberOfJson d)).map fun qs =>
        .object d.name (Table.ofPairs qs.reduceOption) := by
  simp only [ofJsonShape, hd, if_neg hk, membersOfJson_eq]
  cases js.mapM (c.memberOfJson d) <;> rfl

/-- What a document stands for as a shape. -/
inductive Stands (c : Catalog) : Shape → Json → Value → Prop
  | primitive {type : TypeRef} {j : Json} {v : Value} (h : primitiveOf? type j = some v) :
      Stands c (.one type) j v
  | entry {index : Nat} {d : Definition} {j : Json} {v : Value}
      (hd : c.definitions[index]? = some d) (hk : d.kind = .enum) (h : entryOf? d j = some v) :
      Stands c (.one (.definition index)) j v
  | object {index : Nat} {d : Definition} {js : List (String × Json)}
      {qs : List (Option (String × Value))} (hd : c.definitions[index]? = some d)
      (hk : d.kind ≠ .enum) (hqs : List.Forall₂ (fun p q => c.memberOfJson d p = .ok q) js qs) :
      Stands c (.one (.definition index)) (.object js)
        (.object d.name (Table.ofPairs qs.reduceOption))
  | array {type : TypeRef} {js : List Json} {vs : List Value}
      (hvs : List.Forall₂ (fun j v => c.ofJsonShape j (.one type) "" = .ok v) js vs) :
      Stands c (.many type) (.array js) (.array vs)

theorem stands_of_ofJsonShape (h : c.ofJsonShape j shape field = .ok v) : Stands c shape j v := by
  cases shape with
  | many type =>
    cases j with
    | array js =>
      rw [ofJsonShape, Except.map_eq_ok, itemsOfJson_eq] at h
      obtain ⟨vs, hvs, rfl⟩ := h
      exact .array (Except.mapM_eq_ok.mp hvs)
    | _ => simp [ofJsonShape] at h
  | one type =>
    by_cases htype : ∃ index, type = .definition index
    · obtain ⟨index, rfl⟩ := htype
      cases hd : c.definitions[index]? with
      | none => cases j <;> simp [ofJsonShape, hd] at h
      | some d =>
        by_cases hk : d.kind = .enum
        · rw [ofJsonShape_enum hd hk] at h
          split at h
          · obtain rfl := Except.ok.inj h
            exact .entry hd hk ‹_›
          · cases h
        · cases j with
          | object js =>
            rw [ofJsonShape_object hd hk, Except.map_eq_ok] at h
            obtain ⟨qs, hqs, rfl⟩ := h
            exact .object hd hk (Except.mapM_eq_ok.mp hqs)
          | _ => simp [ofJsonShape, hd, hk] at h
    · rw [ofJsonShape_primitive fun index h => htype ⟨index, h⟩] at h
      split at h
      · obtain rfl := Except.ok.inj h
        exact .primitive ‹_›
      · cases h

theorem ofJsonShape_of_stands (h : Stands c shape j v) (field : String) :
    c.ofJsonShape j shape field = .ok v := by
  cases h with
  | @primitive type j v h =>
    have htype : ∀ index, type ≠ .definition index := by
      rintro index rfl
      simp [primitiveOf?] at h
    rw [ofJsonShape_primitive htype, h]
  | entry hd hk h => rw [ofJsonShape_enum hd hk, h]
  | object hd hk hqs => rw [ofJsonShape_object hd hk, Except.mapM_eq_ok.mpr hqs, Except.map]
  | array hvs => rw [ofJsonShape, itemsOfJson_eq, Except.mapM_eq_ok.mpr hvs, Except.map]

theorem ofJsonShape_eq_ok_iff : c.ofJsonShape j shape field = .ok v ↔ Stands c shape j v :=
  ⟨stands_of_ofJsonShape, fun h => ofJsonShape_of_stands h field⟩

end WireSchema.Catalog
