import WireSchema.Proofs.Layout.Catalog
import WireSchema.Proofs.Mirroring
import WireSchema.Proofs.Value.Delimiting
import WireSchema.Proofs.Value.RoundTrip

/-! Two readers of binary schemas, the one made for them and the one that the catalog of their
layout gives, side by side, by `Mirrors`: what the first takes for definitions the second takes for
the value of these, and where the first runs out of bytes the second fails. The first checks more,
so that it may fail where the second does not, but then not for want of bytes. -/

namespace WireSchema.Schema

open Reader (Reads Fails Mirrors Delimited)

variable {levels : Nat} {kind : Kind} {s : Schema} {bytes : List UInt8}

/-! ### Reading with the catalog -/

/-- Below every level there is a level or nothing. -/
theorem exists_readWithin_eq (c : Catalog) (levels : Nat) :
    ∃ inner, c.readWithin levels = c.readShape inner := by
  cases levels with
  | zero => exact ⟨none, rfl⟩
  | succ levels => exact ⟨some (c.readWithin levels), rfl⟩

/-- The items of an array. -/
def readItems (c : Catalog) (levels : Nat) (type : TypeRef) : Reader DecodeError (List Value) := do
  let count ← c.readCount type
  (c.readWithin levels (.one type)).times count

theorem readWithin_field : layoutCatalog.readWithin (levels + 1) (.one (.definition 1)) = (do
    let name ← Reader.string
    let typeId ← Reader.int
    let flags ← Reader.byte
    let value ← Reader.uint
    return RawField.toValue ⟨name, typeId, flags, value⟩ : Reader DecodeError Value) := by
  obtain ⟨inner, hinner⟩ := exists_readWithin_eq layoutCatalog levels
  rw [Catalog.readWithin_succ_definition (d := fieldLayout) rfl]
  show Catalog.readStruct _ fieldLayout = _
  simp only [Catalog.readStruct, fieldLayout, Reader.foldl, Catalog.Field.shape, Bool.false_eq_true,
    if_false, hinner, Catalog.readShape, bind_assoc, pure_bind]
  rfl

theorem readWithin_definition : layoutCatalog.readWithin (levels + 2) (.one (.definition 2)) = (do
    let name ← Reader.string
    let kind ← layoutCatalog.readWithin (levels + 1) (.one (.definition 0))
    let fields ← readItems layoutCatalog levels (.definition 1)
    return Value.object "Definition"
      [("fields", .array fields), ("kind", kind), ("name", .string name)] :
        Reader DecodeError Value) := by
  rw [Catalog.readWithin_succ_definition (d := definitionLayout) rfl]
  show Catalog.readStruct _ definitionLayout = _
  simp only [Catalog.readStruct, definitionLayout, Reader.foldl, Catalog.Field.shape,
    Bool.false_eq_true, if_false, if_true, Catalog.readWithin, Catalog.readShape, readItems,
    bind_assoc, pure_bind]
  rfl

theorem readWithin_schema : layoutCatalog.readWithin (levels + 2) (.one (.definition 3)) = (do
    let definitions ← readItems layoutCatalog levels (.definition 2)
    return Value.object "BinarySchema" [("definitions", .array definitions)] :
      Reader DecodeError Value) := by
  rw [Catalog.readWithin_succ_definition (d := schemaLayout) rfl]
  show Catalog.readStruct _ schemaLayout = _
  simp only [Catalog.readStruct, schemaLayout, Reader.foldl, Catalog.Field.shape, if_true,
    Catalog.readWithin, Catalog.readShape, readItems, bind_assoc, pure_bind]
  rfl

/-! ### Side by side -/

/-- Missing bytes are answered by some failure. -/
def FailsToo (e : BinaryError) (_ : DecodeError) : Prop := ∃ e', e = .buffer e'

theorem mirrors_lift {α : Type} (m : Reader BufferError α) :
    Mirrors FailsToo (fun a b => a = b) (monadLift m : Reader BinaryError α)
      (monadLift m : Reader DecodeError α) :=
  .mapError (fun e _ _ => ⟨e, rfl⟩) m

theorem RawField.check_ne_buffer {f : RawField} {e : BufferError} :
    f.check kind ≠ .error (.buffer e) := by
  unfold check
  split_ifs <;> simp

theorem mirrors_readField (kind : Kind) :
    Mirrors FailsToo (fun f v => f.check kind = .ok () ∧ v = f.toValue) (readField kind)
      (layoutCatalog.readWithin (levels + 1) (.one (.definition 1))) := by
  rw [readWithin_field]
  refine (mirrors_lift Reader.string).bind ?_
  rintro name _ rfl
  refine (mirrors_lift Reader.int).bind ?_
  rintro typeId _ rfl
  refine (mirrors_lift Reader.byte).bind ?_
  rintro flags _ rfl
  refine (mirrors_lift Reader.uint).bind ?_
  rintro value _ rfl
  dsimp only
  split
  · rename_i hcheck
    exact .pure ⟨hcheck, rfl⟩
  · rename_i e hcheck
    refine .of_fails ?_
    rintro _ ⟨b, rfl⟩
    exact RawField.check_ne_buffer hcheck

/-- A count and so many items. -/
def readCounted {α : Type} (m : Reader BinaryError α) : Reader BinaryError (List α) := do
  let count ← Reader.uint
  m.times count.toNat

/-- The kind of a definition of some name. -/
def readKind (name : String) : Reader BinaryError Kind := do
  let byte ← Reader.byte
  match kindOf? byte with
  | none => Reader.fail (.badKind byte name)
  | some kind => pure kind

theorem readDefinition_eq : readDefinition = (do
    let name ← Reader.string
    let kind ← readKind name
    let fields ← readCounted (readField kind)
    return ⟨name, kind, fields⟩) := by
  simp only [readDefinition, readKind, readCounted, bind_assoc]
  congr
  funext name
  congr
  funext byte
  cases kindOf? byte <;> rfl

theorem eq_byteOf_of_kindOf? {b : UInt8} (h : kindOf? b = some kind) : b = byteOf kind := by
  have hlt : b.toNat < 3 := (List.getElem?_eq_some_iff.mp h).1
  apply UInt8.toNat_inj.mp
  obtain hb | hb | hb : b.toNat = 0 ∨ b.toNat = 1 ∨ b.toNat = 2 := by omega
  all_goals
    rw [kindOf?, hb] at h
    cases h
    exact hb

/-- A kind is a byte for the one and a number for the other, which are the same where there is a
kind. -/
theorem mirrors_readKind (name : String) :
    Mirrors FailsToo (fun kind v => v = kindValue kind) (readKind name)
      (layoutCatalog.readWithin levels (.one (.definition 0))) := by
  rw [Catalog.readWithin_enum (d := kindLayout) rfl rfl]
  constructor
  case reads =>
    intro c kind c' h
    obtain ⟨b, c₁, hb, h⟩ := Reader.reads_bind.mp h
    split at h
    · exact absurd h Reader.not_reads_fail
    · rename_i k hk
      obtain ⟨rfl, rfl⟩ := Reader.reads_pure.mp h
      obtain rfl := eq_byteOf_of_kindOf? hk
      have hnumber :=
        Reader.reads_uint_of_byte (Reader.reads_mapError.mp hb) (by cases k <;> decide)
      refine ⟨kindValue k, rfl, Reader.reads_bind.mpr ⟨_, _, Reader.reads_mapError.mpr hnumber, ?_⟩⟩
      cases k <;> exact Reader.reads_pure.mpr ⟨rfl, rfl⟩
  case fails =>
    rintro c e e' h ⟨e₀, rfl⟩
    rcases Reader.fails_bind.mp h with h | ⟨b, c', -, h⟩
    · obtain ⟨e, hbyte, -⟩ := Reader.fails_mapError.mp h
      refine ⟨.buffer e, ⟨e₀, rfl⟩, Reader.fails_bind.mpr (.inl ?_)⟩
      exact Reader.fails_mapError.mpr ⟨e, Reader.fails_uint_of_byte hbyte, rfl⟩
    · split at h
      · cases Reader.fails_fail.mp h
      · exact absurd h Reader.not_fails_pure

/-- Counted items, where each item that the second reads takes a byte at least: as many bytes as
items are left wherever there are so many items. -/
theorem mirrors_readCounted {α : Type} {P : α → Value → Prop} {m : Reader BinaryError α}
    {c : Catalog} {type : TypeRef} (h : Mirrors FailsToo P m (c.readWithin levels (.one type)))
    (hwide : ¬ c.isZeroWidth type = true) :
    Mirrors FailsToo (List.Forall₂ P) (readCounted m) (readItems c levels type) := by
  have hleast : Delimited DecodeError.Past 1 (c.readWithin levels (.one type)) := by
    have := Catalog.delimited_readWithin (c := c) levels (.one type)
    rwa [Catalog.leastWidth, if_neg hwide] at this
  have hcheck : ∀ {n cursor}, n ≤ cursor.remaining → Reads (c.checkCount type n) cursor () cursor :=
    fun hn => Catalog.reads_checkCount.mpr ⟨by rwa [if_neg hwide], rfl⟩
  simp only [readCounted, readItems, Catalog.readCount_eq, bind_assoc, pure_bind]
  refine (mirrors_lift Reader.uint).bind ?_
  rintro count _ rfl
  have htimes := h.times count.toNat
  constructor
  case reads =>
    intro cursor as cursor' has
    obtain ⟨vs, hP, hvs⟩ := htimes.reads has
    have hremaining := (hleast.times count.toNat).remaining_le hvs
    exact ⟨vs, hP, Reader.reads_bind.mpr ⟨(), cursor, hcheck (by omega), hvs⟩⟩
  case fails =>
    intro cursor e e' he hF
    by_cases hcount : count.toNat ≤ cursor.remaining
    · obtain ⟨e', hF', hfails⟩ := htimes.fails he hF
      exact ⟨e', hF', Reader.fails_bind.mpr (.inr ⟨(), cursor, hcheck hcount, hfails⟩)⟩
    · refine ⟨.buffer (.underflow cursor.offset count.toNat), hF, Reader.fails_bind.mpr (.inl ?_)⟩
      rw [Reader.fails_congr (Catalog.checkCount_apply type count.toNat cursor), if_neg hwide,
        if_pos (Nat.lt_of_not_le hcount)]
      exact Reader.fails_fail.mpr rfl

/-- A definition that reading lets pass. -/
def RawDefinition.Checked (d : RawDefinition) : Prop := ∀ f ∈ d.fields, f.check d.kind = .ok ()

/-- Values that belong to raw forms one by one. -/
theorem of_forall₂_value {α : Type} {p : α → Prop} {value : α → Value} {as : List α}
    {vs : List Value} (h : List.Forall₂ (fun a v => p a ∧ v = value a) as vs) :
    (∀ a ∈ as, p a) ∧ vs = as.map value := by
  obtain ⟨hp, hvs⟩ := (List.forall₂_and_left as vs).mp h
  have hmap := Except.map_eq_of_forall₂ (f := value) (g := id) hvs fun h => h
  exact ⟨hp, by rwa [List.map_id] at hmap⟩

theorem mirrors_readDefinition :
    Mirrors FailsToo (fun d v => d.Checked ∧ v = d.toValue) readDefinition
      (layoutCatalog.readWithin (levels + 3) (.one (.definition 2))) := by
  rw [readDefinition_eq, readWithin_definition]
  refine (mirrors_lift Reader.string).bind ?_
  rintro name _ rfl
  refine (mirrors_readKind name).bind ?_
  rintro kind _ rfl
  refine (mirrors_readCounted (mirrors_readField kind) (by decide)).bind ?_
  intro fields vs h
  obtain ⟨hchecked, rfl⟩ := of_forall₂_value h
  exact .pure ⟨hchecked, rfl⟩

/-- The definitions without the end of the bytes. -/
theorem mirrors_definitions : Mirrors FailsToo (fun ds v => (∀ d ∈ ds, d.Checked) ∧ v = rawValue ds)
    (readCounted readDefinition) (layoutCatalog.readValue (.definition 3)) := by
  show Mirrors _ _ _ (layoutCatalog.readWithin (507 + 5) (.one (.definition 3)))
  rw [readWithin_schema, ← bind_pure (readCounted readDefinition)]
  refine (mirrors_readCounted mirrors_readDefinition (by decide)).bind ?_
  intro ds vs h
  obtain ⟨hchecked, rfl⟩ := of_forall₂_value h
  exact .pure ⟨hchecked, rfl⟩

/-! ### To the end of the bytes -/

theorem readDefinitions_eq : readDefinitions = (do
    let definitions ← readCounted readDefinition
    let c ← Reader.cursor
    if 0 < c.remaining then Reader.fail (.trailing c.remaining)
    return definitions) := by
  simp only [readDefinitions, readCounted, bind_assoc]

theorem reads_readDefinitions_iff {ds : List RawDefinition} {c c' : Cursor} :
    Reads readDefinitions c ds c' ↔
    Reads (readCounted readDefinition) c ds c' ∧ c'.remaining = 0 := by
  rw [readDefinitions_eq]
  constructor
  · intro h
    obtain ⟨ds', c₁, hds, h⟩ := Reader.reads_bind.mp h
    obtain ⟨_, _, hhere, h⟩ := Reader.reads_bind.mp h
    obtain ⟨rfl, rfl⟩ := Reader.reads_cursor.mp hhere
    split at h
    · exact absurd h (by simp)
    · obtain ⟨rfl, rfl⟩ := Reader.reads_pure.mp h
      exact ⟨hds, by omega⟩
  · rintro ⟨hds, hend⟩
    refine Reader.reads_bind.mpr ⟨ds, c', hds,
      Reader.reads_bind.mpr ⟨c', c', Reader.reads_cursor.mpr ⟨rfl, rfl⟩, ?_⟩⟩
    rw [if_neg (by omega)]
    exact Reader.reads_pure.mpr ⟨rfl, rfl⟩

/-- Bytes are missing in the definitions or not at all. -/
theorem fails_of_fails_readDefinitions {c : Cursor} {e : BufferError}
    (h : Fails readDefinitions c (.buffer e)) :
    Fails (readCounted readDefinition) c (.buffer e) := by
  rw [readDefinitions_eq] at h
  rcases Reader.fails_bind.mp h with h | ⟨ds, c', -, h⟩
  · exact h
  · rcases Reader.fails_bind.mp h with h | ⟨_, _, -, h⟩
    · exact absurd h Reader.not_fails_cursor
    · split at h <;> simp at h

theorem ofBinary_eq_ok : (ofBinary bytes).result = .ok s ↔
    ∃ raw c, Reads readDefinitions (.start bytes) raw c ∧
    raw.mapM (RawDefinition.resolve (raw.map (·.name))) = .ok s.definitions ∧ s.package = none := by
  obtain ⟨package, definitions⟩ := s
  constructor
  · intro h
    rw [ofBinary] at h
    split at h
    · cases h
    · rename_i raw hraw
      split at h
      · cases h
      · rename_i ds hds
        cases h
        exact ⟨raw, _, ⟨hraw, rfl⟩, hds, rfl⟩
  · rintro ⟨raw, c, ⟨hraw, -⟩, hds, rfl⟩
    simp only [ofBinary, hraw, hds]
    rfl

theorem RawField.of_resolve {names : List String} {f : RawField} {g : Field} (hkind : kind ≠ .enum)
    (h : f.resolve names kind = .ok g) : ∃ name, f.typeName names = .ok name ∧
      ⟨f.name, .none, some name, f.isArray, f.isDeprecated, f.value.toInt32⟩ = g := by
  cases kind with
  | enum => exact absurd rfl hkind
  | _ =>
    obtain ⟨name, hname, -⟩ := Except.bind_eq_ok.mp h
    exact ⟨name, hname, Except.ok.inj ((resolve_typed hkind hname).symm.trans h)⟩

theorem RawField.resolve_ne_buffer {names : List String} {f : RawField} {e : BufferError} :
    f.resolve names kind ≠ .error (.buffer e) := by
  have htype : f.typeName names ≠ .error (.buffer e) := by
    unfold typeName
    split
    · simp
    · split <;> simp
  cases kind with
  | enum => simp [resolve_enum]
  | _ =>
    intro h
    rcases Except.bind_eq_error.mp h with h | ⟨name, -, h⟩
    · exact htype h
    · exact Except.pure_ne_error h

theorem RawDefinition.of_resolve {names : List String} {d : RawDefinition} {g : Definition}
    (h : d.resolve names = .ok g) : g.name = d.name ∧ g.position = .none ∧ g.kind = d.kind ∧
      List.Forall₂ (fun f f' => f.resolve names d.kind = .ok f') d.fields g.fields := by
  obtain ⟨fields, hfields, h⟩ := Except.bind_eq_ok.mp h
  obtain rfl := Except.pure_eq_ok.mp h
  exact ⟨rfl, rfl, rfl, Except.mapM_eq_ok.mp hfields⟩

theorem RawDefinition.resolve_ne_buffer {names : List String} {d : RawDefinition}
    {e : BufferError} : d.resolve names ≠ .error (.buffer e) := by
  intro h
  rcases Except.bind_eq_error.mp h with h | ⟨_, -, h⟩
  · obtain ⟨f, -, hf⟩ := Except.exists_of_mapM_eq_error h
    exact RawField.resolve_ne_buffer hf
  · exact Except.pure_ne_error h

theorem fails_of_ofBinary {e : BufferError} (h : (ofBinary bytes).result = .error (.buffer e)) :
    Fails readDefinitions (.start bytes) (.buffer e) := by
  simp only [ofBinary] at h
  split at h
  · rename_i e' he'
    cases h
    exact he'
  · split at h
    · rename_i e' hresolve
      cases h
      obtain ⟨d, -, hd⟩ := Except.exists_of_mapM_eq_error hresolve
      exact absurd hd RawDefinition.resolve_ne_buffer
    · cases h

theorem decode_eq_ok_iff {v : Value} : (layoutCatalog.decode "BinarySchema" bytes).result = .ok v ↔
    ∃ c, Reads (layoutCatalog.readValue (.definition 3)) (.start bytes) v c ∧ c.remaining = 0 := by
  have htype : layoutCatalog.typeOf? "BinarySchema" = some (.definition 3) := by decide
  rw [Catalog.decode, htype]
  exact Catalog.decodeAs_eq_ok_iff

end WireSchema.Schema
