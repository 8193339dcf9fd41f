import WireSchema.Proofs.Catalog.Alteration
import WireSchema.Proofs.Catalog.Representation
import WireSchema.Proofs.Value.Mirroring

/-! Reading with an older schema, which lacks fields of messages. Where such a field holds one
number, the older reader skips it byte for byte, so that it reads what the newer one reads without
these members. -/

namespace WireSchema

/-! ### Schemas without some fields -/

namespace Schema

def Definition.without (gone : String → String → Bool) (d : Definition) : Definition :=
  { d with fields := d.fields.filter fun f => !gone d.name f.name }

/-- A schema whose definitions have lost the fields that are `gone`, given by both names. -/
def without (gone : String → String → Bool) (s : Schema) : Schema :=
  { s with definitions := s.definitions.map (Definition.without gone) }

/-- A field that holds one number: a truth value, a number or an entry of an enum, and no array. -/
def IsNumber (s : Schema) (f : Field) : Prop :=
  f.isArray = false ∧ ∃ name, f.typeName = some name ∧
    (name = "bool" ∨ name = "int" ∨ name = "uint" ∨ ∃ d ∈ s.definitions, d.name = name ∧
      d.kind = .enum)

end Schema

namespace Catalog

def Definition.without (gone : String → String → Bool) (d : Definition) : Definition :=
  { d with fields := d.fields.filter fun f => !gone d.name f.name }

theorem Definition.without_eq_self {gone : String → String → Bool} {d : Definition}
    (h : ∀ name, gone d.name name = false) : d.without gone = d := by
  simp [Definition.without, h]

/-- A type whose values are numbers on the wire. -/
inductive IsNumber (c : Catalog) : TypeRef → Prop
  | bool : IsNumber c .bool
  | int : IsNumber c .int
  | uint : IsNumber c .uint
  | enum {index : Nat} {d : Definition} (hd : c.definitions[index]? = some d)
      (hk : d.kind = .enum) : IsNumber c (.definition index)

end Catalog

namespace Schema

variable {n o : Schema} {c c' : Catalog} {gone : String → String → Bool}

theorem isNumber_of_compile (h : n.compile.result = .ok c) {kind : Kind} {f : Field} {place : Nat}
    {g : Catalog.Field} (hf : n.IsNumber f) (hg : f.compile n kind place = .ok g) :
    g.isArray = false ∧ c.IsNumber g.type := by
  obtain ⟨harray, name, hname, htype⟩ := hf
  have hrenders := rendersField_of_compile (names_of_compile h) hg
  refine ⟨hrenders.isArray.trans harray, ?_⟩
  have hresolves := hrenders.type
  rw [hname] at hresolves
  rcases htype with rfl | rfl | rfl | ⟨d, hd, rfl, hk⟩
  · exact hresolves.eq_primitive rfl ▸ .bool
  · exact hresolves.eq_primitive rfl ▸ .int
  · exact hresolves.eq_primitive rfl ▸ .uint
  · have hvalid := valid_of_check (compile_eq_ok_iff.mp h).1
    generalize hname : d.name = name at hresolves
    generalize g.type = type at hresolves
    cases hresolves with
    | primitive hprimitive =>
      have hfree := (hvalid.free d hd).1
      rw [hname, TypeRef.isPrimitiveName, hprimitive] at hfree
      exact absurd hfree (by simp)
    | definition _ hd' =>
      obtain ⟨d₀, hd₀, hcompile⟩ := exists_of_mem_compile h (List.mem_of_getElem? hd')
      obtain ⟨hname₀, hkind₀, -⟩ := Definition.of_compile hcompile
      have heq : d = d₀ := List.inj_on_of_nodup_map hvalid.names hd hd₀ (hname.trans hname₀)
      exact .enum hd' (hkind₀.trans (heq ▸ hk))

theorem Definition.without_eq_self {d : Definition} (h : ∀ name, gone d.name name = false) :
    d.without gone = d := by
  simp [Definition.without, h]

/-- The catalog of the older schema is that of the newer one without the fields. -/
theorem altersMessages_without (h : n.compile.result = .ok c)
    (h' : (n.without gone).compile.result = .ok c')
    (hgone : ∀ type name, gone type name = true → ∃ f, n.HasMessageField type f) :
    Catalog.AltersMessages c c' (Catalog.Definition.without gone) := by
  refine altersMessages_of_compile (Definition.without gone)
    (Catalog.Definition.without gone) rfl h h' (fun _ => ⟨rfl, rfl⟩)
    (fun _ => ⟨rfl, rfl⟩) ?fixed ?fields
  case fixed =>
    intro d hd d' hcompile hk
    have hkept := kept_of_kind h hgone hd hk
    have hname := (Definition.of_compile hcompile).1
    exact ⟨Definition.without_eq_self hkept, Catalog.Definition.without_eq_self (hname ▸ hkept)⟩
  case fields =>
    intro d d' hcompile hk
    have hfields := Definition.fields_of_compile (by simp [hk]) hcompile
    rw [hk] at hfields
    refine List.rel_filter (fun f g hfg => ?_) hfields
    show (!gone d.name f.name) = true ↔ (!gone d'.name g.name) = true
    rw [(Definition.of_compile hcompile).1, Field.name_of_compile hfg]

/-- The fields that are gone hold numbers in the catalog too. -/
theorem isNumber_of_gone (h : n.compile.result = .ok c)
    (hgone : ∀ type name, gone type name = true →
      ∃ f, n.HasMessageField type f ∧ f.name = name ∧ n.IsNumber f)
    {d : Catalog.Definition} (hd : d ∈ c.definitions) {g : Catalog.Field} (hg : g ∈ d.fields)
    (htrue : gone d.name g.name = true) : g.isArray = false ∧ c.IsNumber g.type := by
  obtain ⟨d₀, hd₀, hcompile⟩ := exists_of_mem_compile h hd
  obtain ⟨f, hf, place, hfield⟩ := Definition.exists_of_mem_fields hcompile hg
  obtain ⟨f', hf', hname, hnumber⟩ := hgone _ _ htrue
  rw [(Definition.of_compile hcompile).1] at hf'
  have hnames := (valid_of_check (compile_eq_ok_iff.mp h).1).fieldNames d₀ hd₀
  have heq : f' = f :=
    List.inj_on_of_nodup_map hnames (hf'.mem h hd₀).2 hf
      (hname.trans (Field.name_of_compile hfield))
  exact isNumber_of_compile h (heq ▸ hnumber) hfield

end Schema

/-! ### Reading without some fields -/

namespace Catalog

open Reader (Reads Mirrors)
open Value (Leaves)

variable {c c' : Catalog} {gone : String → String → Bool} {type : TypeRef} {levels : Nat}

/-- Where a number of any type is read, an unsigned number could be read as well. -/
theorem reads_uint_of_isNumber (htype : c.IsNumber type) {cursor cursor' : Cursor} {v : Value}
    (h : Reads (c.readWithin levels (.one type)) cursor v cursor') :
    ∃ n, Reads Reader.uint cursor n cursor' := by
  obtain ⟨inner, h⟩ : ∃ inner, Reads (c.readShape inner (.one type)) cursor v cursor' := by
    cases levels with
    | zero => exact ⟨_, h⟩
    | succ levels => exact ⟨_, h⟩
  cases htype with
  | bool =>
    obtain ⟨b, _, hb, h⟩ := Reader.reads_bind.mp h
    obtain ⟨-, rfl⟩ := Reader.reads_pure.mp h
    exact ⟨_,
      Reader.reads_uint_of_byte (Reader.reads_bool.mp (Reader.reads_mapError.mp hb))
        (by cases b <;> decide)⟩
  | int =>
    obtain ⟨_, _, hint, h⟩ := Reader.reads_bind.mp h
    obtain ⟨-, rfl⟩ := Reader.reads_pure.mp h
    obtain ⟨n, _, hn, h⟩ := Reader.reads_bind.mp (Reader.reads_mapError.mp hint)
    obtain ⟨-, rfl⟩ := Reader.reads_pure.mp h
    exact ⟨n, hn⟩
  | uint =>
    obtain ⟨n, _, hn, h⟩ := Reader.reads_bind.mp h
    obtain ⟨-, rfl⟩ := Reader.reads_pure.mp h
    exact ⟨n, Reader.reads_mapError.mp hn⟩
  | enum hd hk =>
    simp only [readShape, hd, hk] at h
    obtain ⟨n, _, hn, h⟩ := Reader.reads_bind.mp h
    split at h
    · obtain ⟨-, rfl⟩ := Reader.reads_pure.mp h
      exact ⟨n, Reader.reads_mapError.mp hn⟩
    · exact absurd h Reader.not_reads_fail

theorem fieldOfValue?_without {d : Definition} (h : (d.fields.map (·.value)).Nodup) (id : UInt32) :
    (d.without gone).fieldOfValue? id = (d.fieldOfValue? id).filter
      fun f => !gone d.name f.name := by
  have hkept : ((d.without gone).fields.map (·.value)).Nodup :=
    h.sublist (List.filter_sublist.map _)
  ext f
  rw [Definition.fieldOfValue?_eq_some_iff hkept, Option.filter_eq_some_iff,
    Definition.fieldOfValue?_eq_some_iff h, Definition.without, List.mem_filter]
  tauto

/-- A member of a field that is gone is skipped as a number, every other member is read alike. -/
theorem mirrors_readMember_without {d : Definition} (hvalues : (d.fields.map (·.value)).Nodup)
    (hgone : ∀ f ∈ d.fields, gone d.name f.name = true → f.isArray = false ∧ c.IsNumber f.type)
    {read' : Shape → Reader DecodeError Value}
    (h : ∀ shape,
      Mirrors (fun _ _ => False) (LeavesValue gone) (c.readWithin levels shape) (read' shape))
    (id : UInt32) {members left : List (String × Value)} (hleft : Leaves gone d.name members left) :
    Mirrors (fun _ _ => False) (Leaves gone d.name) (readMember (c.readWithin levels) d id members)
      (readMember read' (d.without gone) id left) := by
  have hrefl : ∀ {α : Type} (m : Reader DecodeError α),
      Mirrors (fun _ _ => False) (fun a b => a = b) m m :=
    fun m => .refl (fun _ _ h => h) m
  rw [readMember, readMember, fieldOfValue?_without hvalues]
  cases hf : d.fieldOfValue? id with
  | none =>
    rw [Option.filter_none]
    refine (hrefl _).bind ?_
    rintro value _ rfl
    exact .of_takes (.note_pure _ _) (.note_pure _ _) hleft
  | some f =>
    have hmem := (Definition.of_fieldOfValue? hf).1
    cases hname : gone d.name f.name with
    | true =>
      rw [Option.filter_some, hname]
      obtain ⟨harray, hnumber⟩ := hgone f hmem hname
      have hvalue : Mirrors (fun _ _ => False) (fun _ _ => True) (c.readWithin levels f.shape)
          (monadLift Reader.uint : Reader DecodeError UInt32) := by
        refine ⟨fun hv => ?_, fun _ => False.elim⟩
        rw [Field.shape, harray] at hv
        obtain ⟨n, hn⟩ := reads_uint_of_isNumber hnumber hv
        exact ⟨n, trivial, Reader.reads_mapError.mpr hn⟩
      refine hvalue.bind fun v value _ => ?_
      split
      · exact .of_takes (.note_pure _ _) (.note_pure _ _) hleft
      · exact .of_takes (.pure _) (.note_pure _ _) (hleft.insert_gone hname)
    | false =>
      rw [Option.filter_some, hname]
      refine (h f.shape).bind ?_
      rintro v _ rfl
      show Mirrors _ _ (if f.isDeprecated then _ else _) (if f.isDeprecated then _ else _)
      split
      · exact .of_takes (.note_pure _ _) (.note_pure _ _) hleft
      · exact .pure (hleft.insert hname)

/-- Bytes that decode under a schema decode under any older one that lacks some fields of messages,
each of them a number and no array, to the same value without the members of these fields. That the
bytes were written is not needed. -/
theorem decodeAs_without {n o : Schema} (hn : n.compile.result = .ok c)
    (ho : o.compile.result = .ok c')
    (hdeleted : o.withoutPositions = (n.without gone).withoutPositions)
    (hgone : ∀ type name, gone type name = true →
      ∃ f, n.HasMessageField type f ∧ f.name = name ∧ n.IsNumber f)
    {bytes : List UInt8} {v : Value} (h : (c.decodeAs type bytes).result = .ok v) :
    (c'.decodeAs type bytes).result = .ok (v.without gone) := by
  have hfields : ∀ type name, gone type name = true → ∃ f, n.HasMessageField type f :=
    fun type name htrue => (hgone type name htrue).imp fun _ hf => hf.1
  have halters := Schema.altersMessages_without hn
    ((Schema.compile_iff_of_withoutPositions hdeleted).mp ho) hfields
  have hvalues := Schema.valid_of_compile hn
  have hmirrors := mirrors_readWithin (F := fun _ _ => False) (fun _ _ h => h) halters
    (fun d hd hk f _ => Schema.kept_of_compile hn hfields hd (by simp [hk]) f.name)
    (fun levels hvalue => ⟨hvalue, fun d hd hk id members left hleft =>
      mirrors_readMember_without (hvalues.values d hd (by simp [hk]))
        (fun f hf => Schema.isNumber_of_gone hn hgone hd hf) hvalue id hleft⟩) maxDepth (.one type)
  obtain ⟨cursor, hread, hend⟩ := decodeAs_eq_ok_iff.mp h
  obtain ⟨_, rfl, hread'⟩ := hmirrors.reads hread
  exact decodeAs_eq_ok_iff.mpr ⟨cursor, hread', hend⟩

/-- A truth value is unknown to the older schema, in a message and in the messages it holds. -/
theorem decodeAs_without_flag :
    let n : Schema := ⟨none, [⟨"M", .none, .message, [⟨"x", .none, some "uint", false, false, 1⟩,
      ⟨"flag", .none, some "bool", false, false, 2⟩, ⟨"parts", .none, some "M", true, false, 3⟩]⟩]⟩
    let o : Schema := ⟨none, [⟨"M", .first, .message, [⟨"x", .first, some "uint", false, false, 1⟩,
      ⟨"parts", .first, some "M", true, false, 3⟩]⟩]⟩
    ∃ c c' : Catalog, n.compile.result = .ok c ∧ o.compile.result = .ok c' ∧
      (c.decodeAs (.definition 0) [1, 7, 2, 1, 3, 1, 2, 0, 0, 0]).result = .ok (.object "M"
        [("flag", .bool true), ("parts", .array [.object "M" [("flag", .bool false)]]),
          ("x", .uint 7)]) ∧
      (c'.decodeAs (.definition 0) [1, 7, 2, 1, 3, 1, 2, 0, 0, 0]).result = .ok (.object "M"
        [("parts", .array [.object "M" []]), ("x", .uint 7)]) := by
  intro n o
  let c : Catalog :=
    ⟨[⟨"M", .message, [⟨"x", .uint, false, false, 1⟩, ⟨"flag", .bool, false, false, 2⟩,
      ⟨"parts", .definition 0, true, false, 3⟩]⟩]⟩
  let c' : Catalog := ⟨[⟨"M", .message, [⟨"x", .uint, false, false, 1⟩,
    ⟨"parts", .definition 0, true, false, 3⟩]⟩]⟩
  have hn : n.compile.result = .ok c := by decide +kernel
  have ho : o.compile.result = .ok c' := by decide +kernel
  have hread : (c.decodeAs (.definition 0) [1, 7, 2, 1, 3, 1, 2, 0, 0, 0]).result = .ok (.object "M"
    [("flag", .bool true), ("parts", .array [.object "M" [("flag", .bool false)]]),
      ("x", .uint 7)]) := rfl
  have hdeleted : o.withoutPositions =
      (n.without fun type name => type == "M" && name == "flag").withoutPositions := by
    decide
  refine ⟨c, c', hn, ho, hread, decodeAs_without hn ho hdeleted (fun type name htrue => ?_) hread⟩
  obtain ⟨rfl, rfl⟩ : type = "M" ∧ name = "flag" := by simpa using htrue
  exact ⟨_, ⟨_, List.mem_cons_self, rfl, rfl, List.mem_cons_of_mem _ List.mem_cons_self⟩, rfl, rfl,
    "bool", rfl, .inl rfl⟩

end Catalog

end WireSchema
