import WireSchema.Proofs.Catalog.Alteration
import WireSchema.Proofs.Value.Canonical
import WireSchema.Proofs.Value.Mirroring

/-! Fields of messages that are marked as deprecated. Reading with them marked is reading without
and leaving their members out; writing with them marked is leaving their members out and writing
without. -/

namespace WireSchema

/-! ### Schemas with deprecated fields -/

namespace Schema

def Definition.deprecating (marked : String → String → Bool) (d : Definition) : Definition :=
  { d with fields := d.fields.map fun f =>
    { f with isDeprecated := f.isDeprecated || marked d.name f.name } }

/-- A schema in which also the fields that are `marked`, given by both names, are deprecated. -/
def deprecating (marked : String → String → Bool) (s : Schema) : Schema :=
  { s with definitions := s.definitions.map (Definition.deprecating marked) }

end Schema

namespace Catalog

/-- The field of a definition of a name, deprecated if it is marked. -/
def Field.deprecating (marked : String → String → Bool) (type : String) (f : Field) : Field :=
  { f with isDeprecated := f.isDeprecated || marked type f.name }

def Definition.deprecating (marked : String → String → Bool) (d : Definition) : Definition :=
  { d with fields := d.fields.map (Field.deprecating marked d.name) }

theorem Definition.deprecating_eq_self {marked : String → String → Bool} {d : Definition}
    (h : ∀ name, marked d.name name = false) : d.deprecating marked = d := by
  have hself : Field.deprecating marked d.name = id := by
    funext f
    rw [Field.deprecating, h, Bool.or_false, id]
  rw [Definition.deprecating, hself, List.map_id]

end Catalog

namespace Schema

variable {w r : Schema} {c c' : Catalog} {marked : String → String → Bool}

theorem Definition.deprecating_eq_self {d : Definition} (h : ∀ name, marked d.name name = false) :
    d.deprecating marked = d := by
  simp [Definition.deprecating, h]

/-- Whether a field is deprecated is kept, and changes nothing else. -/
theorem Field.compile_isDeprecated {kind : Kind} {f : Field} {place : Nat} {g : Catalog.Field}
    (h : f.compile w kind place = .ok g) (b : Bool) :
    Field.compile w kind { f with isDeprecated := b } place = .ok { g with isDeprecated := b } := by
  unfold compile at h ⊢
  cases hn : f.typeName with
  | none =>
    simp only [hn, Except.bind_eq_ok, Except.pure_eq_ok, exists_eq_left'] at h ⊢
    rw [← h]
  | some n =>
    cases ht : w.typeOf? n with
    | none => simp [hn, ht] at h
    | some type =>
      simp only [hn, ht, Except.bind_eq_ok, Except.pure_eq_ok, exists_eq_left'] at h ⊢
      rw [← h]

theorem altersMessages_deprecating (h : w.compile.result = .ok c)
    (h' : (w.deprecating marked).compile.result = .ok c')
    (hmarked : ∀ type name, marked type name = true → ∃ f, w.HasMessageField type f) :
    Catalog.AltersMessages c c' (Catalog.Definition.deprecating marked) := by
  refine altersMessages_of_compile (Definition.deprecating marked)
    (Catalog.Definition.deprecating marked) rfl h h'
    (fun _ => ⟨rfl, rfl⟩) (fun _ => ⟨rfl, rfl⟩) ?fixed ?fields
  case fixed =>
    intro d hd d' hcompile hk
    have hkept := kept_of_kind h hmarked hd hk
    have hname := (Definition.of_compile hcompile).1
    exact ⟨Definition.deprecating_eq_self hkept,
      Catalog.Definition.deprecating_eq_self (hname ▸ hkept)⟩
  case fields =>
    intro d d' hcompile hk
    have hfields := Definition.fields_of_compile (by simp [hk]) hcompile
    rw [hk] at hfields
    refine List.rel_map (fun f g hfg => ?_) hfields
    have hdeprecated : g.isDeprecated = f.isDeprecated := by
      obtain ⟨_, -, rfl⟩ := Field.of_compile hfg
      rfl
    have hmark : (g.isDeprecated || marked d'.name g.name) =
        (f.isDeprecated || marked d.name f.name) := by
      rw [hdeprecated, (Definition.of_compile hcompile).1, Field.name_of_compile hfg]
    rw [Catalog.Field.deprecating, hmark]
    exact Field.compile_isDeprecated hfg _

end Schema

/-! ### Reading -/

namespace Catalog

open Reader (Reads Mirrors)
open Value (Leaves)

variable {c c' : Catalog} {d : Definition} {marked : String → String → Bool}

theorem fieldOfValue?_deprecating (id : UInt32) :
    (d.deprecating marked).fieldOfValue? id =
      (d.fieldOfValue? id).map (Field.deprecating marked d.name) := by
  have hindex : (d.deprecating marked).indexOfValue? id = d.indexOfValue? id := lastIndex?_map
  rw [Definition.fieldOfValue?, Definition.fieldOfValue?, hindex]
  cases d.indexOfValue? id with
  | none => rfl
  | some i => exact List.getElem?_map

/-- A member of a field that is marked is read and left out, every other member is read alike. -/
theorem mirrors_readMember_deprecating {read read' : Shape → Reader DecodeError Value}
    (h : ∀ shape, Mirrors Eq (LeavesValue marked) (read shape) (read' shape)) (id : UInt32)
    {members left : List (String × Value)} (hleft : Leaves marked d.name members left) :
    Mirrors Eq (Leaves marked d.name) (readMember read d id members)
      (readMember read' (d.deprecating marked) id left) := by
  rw [readMember, readMember, fieldOfValue?_deprecating]
  cases d.fieldOfValue? id with
  | none =>
    refine (Mirrors.refl (fun _ _ _ => rfl) _).bind ?_
    rintro value _ rfl
    exact .of_takes (.note_pure _ _) (.note_pure _ _) hleft
  | some f =>
    refine (h f.shape).bind ?_
    rintro v _ rfl
    show Mirrors _ _ (if f.isDeprecated then _ else _)
      (if f.isDeprecated || marked d.name f.name then _ else _)
    cases f.isDeprecated with
    | true => exact .of_takes (.note_pure _ _) (.note_pure _ _) hleft
    | false =>
      cases hname : marked d.name f.name with
      | true => exact .of_takes (.pure _) (.note_pure _ _) (hleft.insert_gone hname)
      | false => exact .pure (hleft.insert hname)

/-! ### Leaving members out as a type has them -/

mutual

/-- A value of a shape whose objects have lost the members that are `gone`, as the definitions of
the shape and of the fields say where objects are; what is no value of the shape stays as it is. -/
def withoutAs (c : Catalog) (gone : String → String → Bool) : Value → Shape → Value
  | .array items, .many type => .array (withoutItemsAs c gone items type)
  | .object type members, .one (.definition index) =>
    match c.definitions[index]? with
    | some d => .object type (withoutMembersAs c gone members d)
    | none => .object type members
  | v, _ => v

def withoutItemsAs (c : Catalog) (gone : String → String → Bool) : List Value → TypeRef → List Value
  | [], _ => []
  | v :: rest, type => withoutAs c gone v (.one type) :: withoutItemsAs c gone rest type

def withoutMembersAs (c : Catalog) (gone : String → String → Bool) :
    List (String × Value) → Definition → List (String × Value)
  | [], _ => []
  | (name, v) :: rest, d =>
    if gone d.name name then withoutMembersAs c gone rest d
    else
      match d.field? name with
      | some f => (name, withoutAs c gone v f.shape) :: withoutMembersAs c gone rest d
      | none => (name, v) :: withoutMembersAs c gone rest d

end

variable {gone : String → String → Bool}

theorem withoutAs_array (items : List Value) (type : TypeRef) :
    c.withoutAs gone (.array items) (.many type) =
    .array (items.map fun v => c.withoutAs gone v (.one type)) := by
  rw [withoutAs]
  congr 1
  induction items with
  | nil => rfl
  | cons v items ih => rw [withoutItemsAs, ih, List.map_cons]

theorem withoutAs_primitive {type : TypeRef} (htype : ∀ index, type ≠ .definition index)
    (v : Value) : c.withoutAs gone v (.one type) = v := by
  cases type with
  | definition index => exact absurd rfl (htype index)
  | _ => cases v <;> rfl

/-- What a member becomes: a value of the shape of its field. -/
def withoutAsMember (c : Catalog) (gone : String → String → Bool) (d : Definition) (name : String)
    (v : Value) : Value :=
  match d.field? name with
  | some f => c.withoutAs gone v f.shape
  | none => v

theorem withoutMembersAs_eq (members : List (String × Value)) : c.withoutMembersAs gone members d =
    (members.filter fun p => !gone d.name p.1).map fun p =>
      (p.1, c.withoutAsMember gone d p.1 p.2) := by
  induction members with
  | nil => rfl
  | cons p members ih =>
    obtain ⟨name, v⟩ := p
    rw [withoutMembersAs, ih]
    cases hgone : gone d.name name <;> cases hf : d.field? name <;>
      simp [hgone, hf, withoutAsMember]

theorem get?_withoutMembersAs (name : String) (members : List (String × Value)) :
    Table.get? name (c.withoutMembersAs gone members d) =
      if gone d.name name then none
      else (Table.get? name members).map (c.withoutAsMember gone d name) := by
  rw [withoutMembersAs_eq, Table.get?_map_key, Table.get?_filter fun name => !gone d.name name]
  cases gone d.name name <;> rfl

/-! ### Values that are read -/

theorem withoutAs_object (hc : c.Valid) {index : Nat} (hd : c.definitions[index]? = some d)
    {members : List (String × Value)} (hmembers : ∀ p ∈ members, ∃ f ∈ d.fields, f.name = p.1 ∧
      c.withoutAs gone p.2 f.shape = p.2.without gone) :
    c.withoutAs gone (.object d.name members) (.one (.definition index)) =
      (Value.object d.name members).without gone := by
  simp only [withoutAs, hd, Value.without, withoutMembersAs_eq, Value.withoutMembers_eq]
  congr 1
  refine List.map_congr_left fun p hp => ?_
  obtain ⟨f, hf, hname, hvalue⟩ := hmembers p (List.mem_filter.mp hp).1
  rw [withoutAsMember, ← hname, hc.field?_name (List.mem_of_getElem? hd) hf]
  exact congrArg (Prod.mk f.name) hvalue

/-- Objects that can be read are where the type has objects of their names, so that the members to
leave out are found by the objects alone. -/
theorem withoutAs_of_readable (hc : c.Valid) {levels : Nat} {shape : Shape} {v : Value}
    (h : c.Readable levels shape v) : c.withoutAs gone v shape = v.without gone := by
  have hmember : ∀ {d : Definition} {qs : List (Field × Value)}, (∀ q ∈ qs, q.1 ∈ d.fields) →
      (∀ q ∈ qs, c.withoutAs gone q.2 q.1.shape = q.2.without gone) →
      ∀ p ∈ Table.ofPairs (qs.map fun q => (q.1.name, q.2)), ∃ f ∈ d.fields, f.name = p.1 ∧
        c.withoutAs gone p.2 f.shape = p.2.without gone := by
    intro d qs hfields hqs p hp
    obtain ⟨q, hq, rfl⟩ := List.mem_map.mp (Table.mem_of_mem_ofPairs hp)
    exact ⟨q.1, hfields q hq, rfl, hqs q hq⟩
  induction h with
  | primitive htype _ hdepth _ => rw [withoutAs_primitive htype, Value.without_of_depth hdepth]
  | enum => simp only [withoutAs, Value.without]
  | struct hd _ hfst _ ih =>
    exact withoutAs_object hc hd (hmember (fun q hq => hfst ▸ List.mem_map_of_mem hq) ih)
  | message hd _ hfields _ ih =>
    exact withoutAs_object hc hd (hmember (fun q hq => (hfields q hq).1) ih)
  | array _ _ _ ih =>
    rw [withoutAs_array, Value.without_array]
    exact congrArg Value.array (List.map_congr_left ih)

/-! ### Writing -/

open Writing (Agrees Succeeds)

section Members

variable {members : List (String × Value)}

theorem agrees_checkMembers
    (hmarked : ∀ name, marked d.name name = true → ∃ f ∈ d.fields, f.name = name) :
    Agrees (checkMembers (d.deprecating marked) (c'.memberWriters members))
      (checkMembers d (c.memberWriters (c.withoutMembersAs marked members d))) where
  succeeds := by
    rw [succeeds_checkMembers, succeeds_checkMembers, withoutMembersAs_eq]
    have hname : ∀ name, (∃ f ∈ (d.deprecating marked).fields, f.name = name) ↔
        ∃ f ∈ d.fields, f.name = name := by
      simp [Definition.deprecating, Field.deprecating]
    simp only [hname, List.forall_mem_map, List.mem_filter, Bool.not_eq_true']
    refine ⟨fun h p hp => h p hp.1, fun h p hp => ?_⟩
    cases hgone : marked d.name p.1 with
    | true => exact hmarked _ hgone
    | false => exact h p ⟨hp, hgone⟩
  written _ := by rw [written_checkMembers, written_checkMembers]

variable {f : Field} (hf : d.field? f.name = some f)
  (ih : ∀ p ∈ members,
    Agrees (c'.write p.2 f.shape) (c.write (c.withoutAs marked p.2 f.shape) f.shape))
include hf ih

theorem agrees_writeStructField (hkept : marked d.name f.name = false) :
    Agrees (writeStructField d (c'.memberWriters members) f)
      (writeStructField d (c.memberWriters (c.withoutMembersAs marked members d)) f) := by
  rw [writeStructField, writeStructField, get?_memberWriters, get?_memberWriters,
    get?_withoutMembersAs, hkept]
  cases hv : Table.get? f.name members with
  | none => exact .refl _
  | some v =>
    have hvalue := ih _ (Table.mem_of_get? hv)
    simpa [withoutAsMember, hf] using hvalue

/-- A member of a marked field is not written, as if it were not there. -/
theorem agrees_writeMessageField :
    Agrees (writeMessageField (d.deprecating marked) (c'.memberWriters members)
        (f.deprecating marked d.name))
      (writeMessageField d (c.memberWriters (c.withoutMembersAs marked members d)) f) := by
  have hname : (f.deprecating marked d.name).name = f.name := rfl
  have hshape : (f.deprecating marked d.name).shape = f.shape := rfl
  have hid : (f.deprecating marked d.name).value = f.value := rfl
  have hdeprecated : (f.deprecating marked d.name).isDeprecated =
      (f.isDeprecated || marked d.name f.name) := rfl
  rw [writeMessageField, writeMessageField, get?_memberWriters, get?_memberWriters,
    get?_withoutMembersAs, hname, hshape, hid, hdeprecated]
  cases hv : Table.get? f.name members with
  | none => cases marked d.name f.name <;> exact .refl _
  | some v =>
    cases hmark : marked d.name f.name with
    | true =>
      rw [Bool.or_true]
      exact ⟨by simp, fun _ => rfl⟩
    | false =>
      have hvalue := ih _ (Table.mem_of_get? hv)
      rw [Bool.or_false]
      cases f.isDeprecated with
      | true => exact .refl _
      | false => simpa [withoutAsMember, hf] using (Agrees.refl _).append hvalue

end Members

/-- Values of primitives are written alike with all catalogs. -/
theorem write_primitive {type : TypeRef} (htype : ∀ index, type ≠ .definition index) (v : Value) :
    c'.write v (.one type) = c.write v (.one type) := by
  cases type with
  | definition index => exact absurd rfl (htype index)
  | _ => cases v <;> rfl

theorem agrees_write_primitive {type : TypeRef} (htype : ∀ index, type ≠ .definition index)
    (v : Value) :
    Agrees (c'.write v (.one type)) (c.write (c.withoutAs marked v (.one type)) (.one type)) := by
  rw [withoutAs_primitive htype, write_primitive htype]
  exact .refl _

theorem agrees_write_entry (h : AltersMessages c c' (Definition.deprecating marked)) (index : Nat)
    (type entry : String) :
    Agrees (c'.write (.enum type entry) (.one (.definition index)))
      (c.write (.enum type entry) (.one (.definition index))) := by
  cases hd : c.definitions[index]? with
  | none => exact .of_not_succeeds (by simp [write, h.getElem?, hd]) (by simp [write, hd])
  | some d =>
    by_cases hk : d.kind = .message
    · refine .of_not_succeeds ?_ (by simp [write, hd, hk])
      simp [write, h.getElem?, hd, Definition.deprecating, hk]
    · have hd' := (h.getElem?_iff_of_kind hk).mpr hd
      have hwrite : c'.write (.enum type entry) (.one (.definition index)) =
          c.write (.enum type entry) (.one (.definition index)) := by simp only [write, hd, hd']
      rw [hwrite]
      exact .refl _

section Values

variable (hc : c.Valid)
  (hkept : ∀ d ∈ c.definitions, d.kind ≠ .message → ∀ name, marked d.name name = false)
  (hmarked : ∀ d ∈ c.definitions, ∀ name, marked d.name name = true → ∃ f ∈ d.fields, f.name = name)
include hc hkept hmarked

theorem agrees_writeObject (hd : d ∈ c.definitions) {members : List (String × Value)}
    (ih : ∀ p ∈ members, ∀ shape,
      Agrees (c'.write p.2 shape) (c.write (c.withoutAs marked p.2 shape) shape)) :
    Agrees (writeObject (d.deprecating marked) (c'.memberWriters members))
      (writeObject d (c.memberWriters (c.withoutMembersAs marked members d))) := by
  have hkind : (d.deprecating marked).kind = d.kind := rfl
  have hcheck : Agrees (checkMembers (d.deprecating marked) (c'.memberWriters members))
      (checkMembers d (c.memberWriters (c.withoutMembersAs marked members d))) :=
    agrees_checkMembers (hmarked d hd)
  rw [writeObject, writeObject, hkind]
  cases hk : d.kind with
  | enum => exact .refl _
  | struct =>
    have hstruct := hkept d hd (by simp [hk])
    rw [Definition.deprecating_eq_self hstruct] at hcheck ⊢
    exact hcheck.append (.concat_map fun f hf =>
      agrees_writeStructField (hc.field?_name hd hf) (fun p hp => ih p hp f.shape) (hstruct f.name))
  | message =>
    refine hcheck.append (.append ?_ (.refl _))
    rw [Definition.deprecating, List.map_map]
    exact .concat_map fun f hf =>
      agrees_writeMessageField (hc.field?_name hd hf) fun p hp => ih p hp f.shape

theorem agrees_write_object (h : AltersMessages c c' (Definition.deprecating marked)) (index : Nat)
    (type : String) {members : List (String × Value)}
    (ih : ∀ p ∈ members, ∀ shape,
      Agrees (c'.write p.2 shape) (c.write (c.withoutAs marked p.2 shape) shape)) :
    Agrees (c'.write (.object type members) (.one (.definition index)))
      (c.write (c.withoutAs marked (.object type members) (.one (.definition index)))
        (.one (.definition index))) := by
  cases hd : c.definitions[index]? with
  | none =>
    exact .of_not_succeeds (by simp [write, h.getElem?, hd]) (by simp [write, withoutAs, hd])
  | some d =>
    have hd' : c'.definitions[index]? = some (d.deprecating marked) := by
      rw [h.getElem?, hd, Option.map_some]
    by_cases hobject : d.kind ≠ .enum ∧ type = d.name
    · obtain ⟨hk, rfl⟩ := hobject
      have hwithout : c.withoutAs marked (.object d.name members) (.one (.definition index)) =
          .object d.name (c.withoutMembersAs marked members d) := by simp only [withoutAs, hd]
      rw [hwithout, write_object hd hk]
      exact write_object hd' hk members ▸ agrees_writeObject hc hkept hmarked
        (List.mem_of_getElem? hd) ih
    · refine .of_not_succeeds ?_ (by simp [write, withoutAs, hd, hobject])
      simp [write, hd', Definition.deprecating, hobject]

/-- Writing with the fields deprecated agrees with writing a value that lacks their members. By
induction on the value, for each kind of it at the shapes that it can be written as; at the others
both fail. -/
theorem agrees_write (h : AltersMessages c c' (Definition.deprecating marked)) (v : Value)
    (shape : Shape) : Agrees (c'.write v shape) (c.write (c.withoutAs marked v shape) shape) := by
  induction v generalizing shape with
  | array items ih =>
    cases shape with
    | many type =>
      rw [withoutAs_array, write_array, write_array, List.map_map, Wire.count, Wire.count,
        List.length_map]
      exact (Agrees.refl _).append (.concat_map fun v hv => ih v hv (.one type))
    | one type =>
      cases type with
      | definition index =>
        exact .of_not_succeeds (not_succeeds_definition (by simp) (by simp))
          (not_succeeds_definition (by simp [withoutAs]) (by simp [withoutAs]))
      | _ => exact agrees_write_primitive (by simp) _
  | object type members ih =>
    cases shape with
    | many type => exact .of_not_succeeds (by simp [write]) (by simp [write, withoutAs])
    | one type =>
      cases type with
      | definition index => exact agrees_write_object hc hkept hmarked h index _ ih
      | _ => exact agrees_write_primitive (by simp) _
  | enum type entry =>
    cases shape with
    | many type => exact .of_not_succeeds (by simp [write]) (by simp [write, withoutAs])
    | one type =>
      cases type with
      | definition index =>
        have hwithout : c.withoutAs marked (.enum type entry) (.one (.definition index)) =
            .enum type entry := by
          simp only [withoutAs]
        rw [hwithout]
        exact agrees_write_entry h index type entry
      | _ => exact agrees_write_primitive (by simp) _
  | _ =>
    cases shape with
    | many type => exact .of_not_succeeds (by simp [write]) (by simp [write, withoutAs])
    | one type =>
      cases type with
      | definition index =>
        exact .of_not_succeeds (not_succeeds_definition (by simp) (by simp))
          (not_succeeds_definition (by simp [withoutAs]) (by simp [withoutAs]))
      | _ => exact agrees_write_primitive (by simp) _

end Values

/-- Marking fields of messages as deprecated is leaving their members out. Bytes decode to what they
decode to without the marks, less the members of the marked fields, and fail to decode with the same
error; a value is encoded as what is left of it when the members of marked fields are left out where
its type has them. Both ways of leaving members out are one for values that are decoded. -/
theorem decodeAs_encodeAs_deprecating {w r : Schema} (hw : w.compile.result = .ok c)
    (hr : r.compile.result = .ok c')
    (hdeprecated : r.withoutPositions = (w.deprecating marked).withoutPositions)
    (hmarked : ∀ type name, marked type name = true → ∃ f, w.HasMessageField type f ∧ f.name = name)
    (type : TypeRef) :
    (∀ bytes, (c'.decodeAs type bytes).result =
      (c.decodeAs type bytes).result.map (Value.without marked)) ∧
    (∀ v bytes, (c'.encodeAs type v).result = .ok bytes ↔
      (c.encodeAs type (c.withoutAs marked v (.one type))).result = .ok bytes) ∧
    ∀ bytes v, (c.decodeAs type bytes).result = .ok v →
      c.withoutAs marked v (.one type) = v.without marked := by
  have hfields : ∀ type name, marked type name = true → ∃ f, w.HasMessageField type f :=
    fun type name htrue => (hmarked type name htrue).imp fun _ hf => hf.1
  have hc := Schema.valid_of_compile hw
  have halters := Schema.altersMessages_deprecating hw
    ((Schema.compile_iff_of_withoutPositions hdeprecated).mp hr) hfields
  have hkept : ∀ d ∈ c.definitions, d.kind ≠ .message → ∀ name, marked d.name name = false :=
    fun d hd hk => Schema.kept_of_compile hw hfields hd hk
  refine ⟨fun bytes => ?decode, fun v bytes => ?encode, fun bytes v hv => ?same⟩
  case decode =>
    refine decodeAs_eq_map (mirrors_readWithin (fun _ _ _ => rfl) halters
      (fun d hd hk f _ => hkept d hd (by simp [hk]) f.name)
      (fun levels hvalue => ⟨hvalue, ?_⟩) maxDepth (.one type)) bytes
    exact fun d _ _ id members left hleft => mirrors_readMember_deprecating hvalue id hleft
  case encode =>
    have hnames : ∀ d ∈ c.definitions, ∀ name, marked d.name name = true →
        ∃ f ∈ d.fields, f.name = name := by
      intro d hd name htrue
      obtain ⟨f, hf, rfl⟩ := hmarked _ _ htrue
      exact hf.exists_field hw hd
    exact (agrees_write hc hkept hnames halters v (.one type)).toNoted_result_iff
  case same =>
    obtain ⟨cursor, hread, -⟩ := decodeAs_eq_ok_iff.mp hv
    exact withoutAs_of_readable hc (readable_of_reads hread)

/-- A text is deprecated in a message that a struct holds twice: its bytes are still read, and
refused if they end too early, and what a value has there is not looked at when it is written. -/
theorem decodeAs_encodeAs_deprecating_text :
    let w : Schema :=
      ⟨none, [⟨"M", .none, .message, [⟨"old", .none, some "string", false, false, 1⟩,
          ⟨"n", .none, some "int", false, false, 2⟩]⟩,
        ⟨"Pair", .none, .struct,
          [⟨"a", .none, some "M", false, false, 1⟩, ⟨"b", .none, some "M", false, false, 2⟩]⟩]⟩
    let r : Schema :=
      ⟨none, [⟨"M", .first, .message, [⟨"old", .first, some "string", false, true, 1⟩,
          ⟨"n", .first, some "int", false, false, 2⟩]⟩,
        ⟨"Pair", .first, .struct,
          [⟨"a", .first, some "M", false, false, 1⟩, ⟨"b", .first, some "M", false, false, 2⟩]⟩]⟩
    ∃ c c' : Catalog, w.compile.result = .ok c ∧ r.compile.result = .ok c' ∧
      (c'.decodeAs (.definition 1) [1, 97, 0, 0, 2, 2, 0]).result =
        .ok (.object "Pair" [("a", .object "M" []), ("b", .object "M" [("n", .int 1)])]) ∧
      (c'.decodeAs (.definition 1) [1, 97]).result = .error (.buffer (.underflow 1 2)) ∧
      (c'.encodeAs (.definition 1) (.object "Pair" [("a", .object "M" [("old", .uint 3)]),
        ("b", .object "M" [("n", .int 1)])])).result = .ok [0, 2, 2, 0] := by
  intro w r
  let c : Catalog :=
    ⟨[⟨"M", .message, [⟨"old", .string, false, false, 1⟩, ⟨"n", .int, false, false, 2⟩]⟩,
      ⟨"Pair", .struct,
        [⟨"a", .definition 0, false, false, 1⟩, ⟨"b", .definition 0, false, false, 2⟩]⟩]⟩
  let c' : Catalog :=
    ⟨[⟨"M", .message, [⟨"old", .string, false, true, 1⟩, ⟨"n", .int, false, false, 2⟩]⟩,
      ⟨"Pair", .struct,
        [⟨"a", .definition 0, false, false, 1⟩, ⟨"b", .definition 0, false, false, 2⟩]⟩]⟩
  have hw : w.compile.result = .ok c := by decide +kernel
  have hr : r.compile.result = .ok c' := by decide +kernel
  have hdeprecated : r.withoutPositions =
      (w.deprecating fun type name => type == "M" && name == "old").withoutPositions := by decide
  obtain ⟨hdecode, hencode, -⟩ :=
    decodeAs_encodeAs_deprecating hw hr hdeprecated (fun type name htrue => by
      obtain ⟨rfl, rfl⟩ : type = "M" ∧ name = "old" := by simpa using htrue
      exact ⟨_, ⟨_, List.mem_cons_self, rfl, rfl, List.mem_cons_self⟩, rfl⟩) (.definition 1)
  exact ⟨c, c', hw, hr, hdecode _, hdecode _, (hencode _ _).mpr rfl⟩

end Catalog

end WireSchema
