import WireSchema.Attempt
import WireSchema.Proofs.Catalog.Compile
import WireSchema.Proofs.Json.Basic
import WireSchema.Proofs.Value.Faults
import WireSchema.Proofs.Value.OfJson

/-! What values of documents can lack. A document that stands for a value has passed all checks of
its shape but two: a struct may lack members, and a text may hold a zero byte. So these are all that
can go wrong when the value is written, and they go wrong only where the document has them. -/

namespace WireSchema.Catalog

open Writing (Avoids)

variable {c : Catalog} {d : Definition} {shape : Shape} {type : TypeRef} {v : Value} {j : Json}
  {e : EncodeError} {field : String}

/-- Something that a document, taken as a shape, has or lacks, with the error that it is when the
value is written: a text with a zero byte where a string is expected, or an object without a member,
or with null for it, where a struct is. Members of deprecated fields of messages are not written. -/
inductive Shortfall (c : Catalog) : Shape → Json → EncodeError → Prop
  | zero {text : String} (hzero : Char.ofNat 0 ∈ text.toList) :
      Shortfall c (.one .string) (.string text) (.zeroInString text)
  | missing {index : Nat} {d : Definition} {members : List (String × Json)} {f : Field}
      (hd : c.definitions[index]? = some d) (hk : d.kind = .struct) (hf : f ∈ d.fields)
      (hnone : ∀ j, (f.name, j) ∈ members → j = .null) :
      Shortfall c (.one (.definition index)) (.object members) (.missingField d.name f.name)
  | item {type : TypeRef} {items : List Json} {j : Json} {e : EncodeError} (hj : j ∈ items)
      (h : Shortfall c (.one type) j e) : Shortfall c (.many type) (.array items) e
  | member {index : Nat} {d : Definition} {members : List (String × Json)} {f : Field} {j : Json}
      {e : EncodeError} (hd : c.definitions[index]? = some d) (hf : f ∈ d.fields)
      (hwritten : d.kind = .message → f.isDeprecated = false) (hj : (f.name, j) ∈ members)
      (h : Shortfall c f.shape j e) : Shortfall c (.one (.definition index)) (.object members) e

theorem Shortfall.eq_or_eq (h : Shortfall c shape j e) :
    (∃ definition field, e = .missingField definition field) ∨ ∃ text, e = .zeroInString text := by
  induction h with
  | zero => exact .inr ⟨_, rfl⟩
  | missing => exact .inl ⟨_, _, rfl⟩
  | item _ _ ih | member _ _ _ _ _ ih => exact ih

/-! ### Primitives and objects -/

/-- A document that stands for a primitive is written, unless it is a text with a zero byte. -/
theorem avoids_write_of_primitiveOf? (h : primitiveOf? type j = some v)
    (hnone : ¬ Shortfall c (.one type) j e) : Avoids e (c.write v (.one type)) := by
  unfold primitiveOf? at h
  split at h
  case h_6 =>
    obtain rfl := Option.some.inj h
    refine avoids_writeString fun hz he => hnone ?_
    rw [← he]
    exact .zero hz
  case h_7 => cases h
  case h_1 =>
    obtain rfl := Option.some.inj h
    exact Writing.avoids_bytes _ _
  case h_5 =>
    dsimp only at h
    split at h
    · obtain rfl := Option.some.inj h
      exact Writing.avoids_bytes _ _
    · cases h
  all_goals
    obtain ⟨n, -, rfl⟩ := Option.map_eq_some_iff.mp h
    exact Writing.avoids_bytes _ _

/-- The members of an object are what the members of a document give to it. -/
theorem exists_of_mem_members {js : List (String × Json)} {qs : List (Option (String × Value))}
    (hqs : List.Forall₂ (fun p q => c.memberOfJson d p = .ok q) js qs) {name : String}
    (h : (name, v) ∈ Table.ofPairs qs.reduceOption) :
    ∃ j f, (name, j) ∈ js ∧ d.field? name = some f ∧ c.ofJsonShape j f.shape f.name = .ok v := by
  have hq : some (name, v) ∈ qs := List.reduceOption_mem_iff.mp (Table.mem_of_mem_ofPairs h)
  obtain ⟨⟨name', j⟩, hp, hpq⟩ := Except.exists_of_forall₂ hqs hq
  obtain ⟨f, hf, ⟨-, hnone⟩ | ⟨-, w, hw, hsome⟩⟩ := memberOfJson_eq_ok_iff.mp hpq
  · cases hnone
  · obtain ⟨rfl, rfl⟩ := Prod.mk.injEq .. ▸ Option.some.inj hsome
    exact ⟨j, f, hp, hf, hw⟩

/-- Where an object has no member of a name, the document has none either, or null for it. -/
theorem eq_null_of_get?_eq_none {js : List (String × Json)} {qs : List (Option (String × Value))}
    (hqs : List.Forall₂ (fun p q => c.memberOfJson d p = .ok q) js qs) {name : String}
    (hnone : Table.get? name (Table.ofPairs qs.reduceOption) = none) (hj : (name, j) ∈ js) :
    j = .null := by
  obtain ⟨q, hq, hpq⟩ := Except.exists_of_forall₂ hqs.flip hj
  obtain ⟨f, -, ⟨hnull, -⟩ | ⟨-, w, -, rfl⟩⟩ := memberOfJson_eq_ok_iff.mp hpq
  · exact hnull
  · have hmem : name ∈ qs.reduceOption.map Prod.fst :=
      List.mem_map_of_mem (List.reduceOption_mem_iff.mpr hq)
    have hsome := Table.isSome_get?_ofPairs hmem
    rw [hnone] at hsome
    cases hsome

/-- An object is written if its members are, except for those that it lacks as a struct. -/
theorem Valid.avoids_write_object (hc : c.Valid) {index : Nat} (hd : c.definitions[index]? = some d)
    (hk : d.kind ≠ .enum) {js : List (String × Json)} {qs : List (Option (String × Value))}
    (hqs : List.Forall₂ (fun p q => c.memberOfJson d p = .ok q) js qs)
    (hnone : ¬ Shortfall c (.one (.definition index)) (.object js) e)
    (h : ∀ name j (f : Field) v, (name, j) ∈ js → c.ofJsonShape j f.shape f.name = .ok v →
      ¬ Shortfall c f.shape j e → Avoids e (c.write v f.shape)) :
    Avoids e
      (c.write (.object d.name (Table.ofPairs qs.reduceOption)) (.one (.definition index))) := by
  rw [write_object hd hk]
  refine avoids_writeObject (fun m hm hundeclared => ?_) (fun hk f hf hget he => ?_)
    fun f hf hwritten write hwrite => ?_
  · rw [memberWriters_eq] at hm
    obtain ⟨⟨name, v⟩, hp, rfl⟩ := List.mem_map.mp hm
    obtain ⟨j, f, -, hf, -⟩ := exists_of_mem_members hqs hp
    obtain ⟨hmem, hname⟩ := Definition.of_field? hf
    exact absurd hname (hundeclared f hmem)
  · rw [get?_memberWriters, Option.map_eq_none_iff] at hget
    exact hnone (he ▸ .missing hd hk hf fun j hj => eq_null_of_get?_eq_none hqs hget hj)
  · rw [get?_memberWriters] at hwrite
    obtain ⟨v, hv, rfl⟩ := Option.map_eq_some_iff.mp hwrite
    obtain ⟨j, g, hj, hg, hv⟩ := exists_of_mem_members hqs (Table.mem_of_get? hv)
    obtain rfl : f = g :=
      Option.some.inj ((hc.field?_name (List.mem_of_getElem? hd) hf).symm.trans hg)
    exact h f.name j f v hj hv fun hsub => hnone (.member hd hf hwritten hj hsub)

/-! ### Documents -/

/-- What a document stands for is written, except for what the document lacks. By induction on the
document. -/
theorem Valid.avoids_write_of_ofJsonShape (hc : c.Valid) (hv : c.ofJsonShape j shape field = .ok v)
    (hnone : ¬ Shortfall c shape j e) : Avoids e (c.write v shape) := by
  induction j using Json.induction_on_parts generalizing shape field v with
  | step j ihitems ihmembers =>
    cases stands_of_ofJsonShape hv with
    | primitive h => exact avoids_write_of_primitiveOf? h hnone
    | @entry index d _ _ hd hk h =>
      unfold entryOf? at h
      split at h
      · obtain ⟨f, hf, rfl⟩ := Option.map_eq_some_iff.mp h
        obtain ⟨hmem, -⟩ := Definition.of_field? hf
        simp only [write, hd, hk, and_self, if_true]
        refine avoids_writeEntry fun hfield => ?_
        rw [hc.field?_name (List.mem_of_getElem? hd) hmem] at hfield
        cases hfield
      · cases h
    | @object index d js qs hd hk hqs =>
      exact hc.avoids_write_object hd hk hqs hnone fun name j f v hj hv =>
        ihmembers js rfl (name, j) hj hv
    | @array type js vs hvs =>
      rw [write_array]
      refine (Writing.avoids_bytes _ _).append
        (Writing.avoids_concat (List.forall_mem_map.mpr fun v hv => ?_))
      obtain ⟨k, hk, hkv⟩ := Except.exists_of_forall₂ hvs hv
      exact ihitems js rfl k hk hkv fun hitem => hnone (.item hk hitem)

/-- The value of a document can be written, unless the document lacks a member of a struct or holds
a zero byte in a text: no other check of the writing is left to fail. -/
theorem encode_of_ofJson {s : Schema} (hc : s.compile.result = .ok c) {name : String}
    (hv : c.ofJson name j = .ok v) :
    (∃ bytes, (c.encode name v).result = .ok bytes) ∨
      ∃ type e, c.typeOf? name = some type ∧ (c.encode name v).result = .error e ∧
        Shortfall c (.one type) j e ∧
        ((∃ definition field, e = .missingField definition field) ∨
          ∃ text, e = .zeroInString text) := by
  have hvalid := Schema.valid_of_compile hc
  rw [ofJson] at hv
  cases htype : c.typeOf? name with
  | none => simp [htype] at hv
  | some type =>
    rw [htype] at hv
    simp only [encode, htype]
    cases hresult : (c.encodeAs type v).result with
    | ok bytes => exact .inl ⟨bytes, rfl⟩
    | error e =>
      have hshort : Shortfall c (.one type) j e := by
        by_contra hnone
        exact Writing.toNoted_result_ne_error (hvalid.avoids_write_of_ofJsonShape hv hnone) hresult
      exact .inr ⟨type, e, rfl, rfl, hshort, hshort.eq_or_eq⟩

/-- A document with both shortfalls, of which the one in the field declared first shows: a point
without its second number, in an array, and a text with a zero byte. -/
theorem encode_of_ofJson_track :
    let s : Schema := ⟨none, [⟨"Point", .none, .struct, [⟨"x", .none, some "int", false, false, 1⟩,
        ⟨"y", .none, some "int", false, false, 2⟩]⟩,
      ⟨"Track", .none, .message, [⟨"points", .none, some "Point", true, false, 1⟩,
        ⟨"note", .none, some "string", false, false, 2⟩]⟩]⟩
    let c : Catalog :=
      ⟨[⟨"Point", .struct, [⟨"x", .int, false, false, 1⟩, ⟨"y", .int, false, false, 2⟩]⟩,
        ⟨"Track", .message, [⟨"points", .definition 0, true, false, 1⟩,
          ⟨"note", .string, false, false, 2⟩]⟩]⟩
    let j : Json := .object [("note", .string "\x00"),
      ("points", .array [.object [("y", .null), ("x", Json.int 7)]])]
    let v : Value := .object "Track" [("note", .string "\x00"),
      ("points", .array [.object "Point" [("x", .int 7)]])]
    s.compile.result = .ok c ∧ c.ofJson "Track" j = .ok v ∧
      (c.encode "Track" v).result = .error (.missingField "Point" "y") ∧
      ((∃ bytes, (c.encode "Track" v).result = .ok bytes) ∨
        ∃ type e, c.typeOf? "Track" = some type ∧ (c.encode "Track" v).result = .error e ∧
          Shortfall c (.one type) j e ∧
          ((∃ definition field, e = .missingField definition field) ∨
            ∃ text, e = .zeroInString text)) := by
  intro s c j v
  have hc : s.compile.result = .ok c := by decide +kernel
  have hv : c.ofJson "Track" j = .ok v := rfl
  exact ⟨hc, hv, by decide +kernel, encode_of_ofJson hc hv⟩

end WireSchema.Catalog
