import WireSchema.Proofs.Catalog.Relocation
import WireSchema.Proofs.Coinciding
import WireSchema.Proofs.Value.Delimiting
import WireSchema.Proofs.Value.RoundTrip

/-! Writing and reading in a catalog whose definitions have moved. The same bytes are written, if
the fields of messages have kept their order; and bytes that were written are read alike, whatever
has been added. -/

namespace WireSchema.Catalog

open Reader (Reads Takes Coincides)

variable {σ : Nat → Nat} {c c' : Catalog} {d d' : Definition} {members : List (String × Value)}
  {index levels : Nat} {type : TypeRef}

/-! ### Writing -/

theorem filterMap_eq_of_sublist {α β : Type} {f : α → Option β} {l l' : List α} (h : l.Sublist l')
    (hl' : l'.Nodup) (hf : ∀ a ∈ l', a ∉ l → f a = none) : l'.filterMap f = l.filterMap f := by
  induction h with
  | slnil => rfl
  | @cons l l' a h ih =>
    obtain ⟨ha, hl'⟩ := List.nodup_cons.mp hl'
    rw [List.filterMap_cons_none (hf a List.mem_cons_self fun hmem => ha (h.subset hmem))]
    exact ih hl' fun b hb => hf b (List.mem_cons_of_mem a hb)
  | @cons_cons l l' a h ih =>
    obtain ⟨ha, hl'⟩ := List.nodup_cons.mp hl'
    rw [List.filterMap_cons, List.filterMap_cons,
      ih hl' fun b hb hnot => hf b (List.mem_cons_of_mem a hb) ?_]
    rintro (_ | ⟨_, hmem⟩)
    · exact ha hb
    · exact hnot hmem

/-- The members that are declared are carried by the fields that declare them, and in the same
order. -/
theorem Definition.carried_eq_map (hnames : (d'.fields.map (·.name)).Nodup)
    (hkind : d'.kind = d.kind) (horder : (d.fields.map (Field.relocate σ)).Sublist d'.fields)
    (hdeclared : ∀ p ∈ members, ∃ f ∈ d.fields, f.name = p.1) :
    d'.carried members = (d.carried members).map fun p => (p.1.relocate σ, p.2) := by
  rw [carried, filterMap_eq_of_sublist horder (List.Nodup.of_map _ hnames), carried,
    List.filterMap_map, List.map_filterMap, hkind]
  · refine List.filterMap_congr fun f _ => ?_
    show (if d.kind = .message ∧ f.isDeprecated = true then none
      else (Table.get? f.name members).map (f.relocate σ, ·)) = _
    split
    · rfl
    · rw [Option.map_map]
      rfl
  · intro f' hf' hnot
    have hnone : Table.get? f'.name members = none := by
      refine Table.get?_eq_none_iff.mpr fun p hp hname => hnot ?_
      obtain ⟨f, hf, hfname⟩ := hdeclared p hp
      have hmem := List.mem_map_of_mem (f := Field.relocate σ) hf
      rwa [List.inj_on_of_nodup_map hnames hf' (horder.subset hmem) (hname.symm.trans hfname.symm)]
    rw [hnone]
    split <;> rfl

/-- By induction on conformity, member by member in the order in which they are carried. -/
theorem Within.written_eq (h : Within σ c c') (horder : InOrder σ c c') {shape : Shape} {v : Value}
    (hv : Conforms c shape v) :
    (c'.write v (shape.relocate σ)).written = (c.write v shape).written := by
  have hs := succeeds_of_conforms hv
  have hs' := succeeds_of_conforms (h.conforms hv)
  induction hv with
  | bool b => rfl
  | byte b => rfl
  | int n => rfl
  | uint n => rfl
  | float x => rfl
  | string hs => rfl
  | @enum index d f entry hd hk hf =>
    obtain ⟨d', hd', hwithin⟩ := h.definition hd
    obtain ⟨hmem, rfl⟩ := Definition.of_field? hf
    have hfield := h.valid'.field?_name (List.mem_of_getElem? hd') (hwithin.mem f hmem)
    rw [Field.name_relocate] at hfield
    simp [Shape.relocate, TypeRef.relocate, write, hd, hd', hk, hwithin.kind, hwithin.name,
      writeEntry, hf, hfield]
  | @struct index d members hd hk hdeclared hpresent hmembers ih =>
    obtain ⟨d', hd', hwithin⟩ := h.definition hd
    have hnames := h.valid'.fieldNames d' (List.mem_of_getElem? hd')
    have hfields : (d.fields.map (Field.relocate σ)).Sublist d'.fields := by
      rw [hwithin.struct hk]
    have hcarried := Definition.carried_eq_map hnames hwithin.kind hfields hdeclared
    have hwritten : (c'.write (.object d.name members) (.one (.definition (σ index)))).written =
        (d'.carried members).flatMap fun p => (c'.write p.2 p.1.shape).written := by
      rw [Shape.relocate, TypeRef.relocate, ← hwithin.name] at hs'
      rw [← hwithin.name]
      exact written_struct hd' (hwithin.kind.trans hk) hs'
    rw [Shape.relocate, TypeRef.relocate, hwritten, written_struct hd hk hs, hcarried,
      List.flatMap_map]
    refine List.flatMap_congr fun p hp => ?_
    obtain ⟨hf, hv, -⟩ := Definition.mem_carried.mp hp
    have hconforms := hmembers p.1 hf p.2 hv
    rw [Field.shape_relocate]
    exact ih p.1 hf p.2 hv (succeeds_of_conforms hconforms)
      (succeeds_of_conforms (h.conforms hconforms))
  | @message index d members hd hk hdeclared hmembers ih =>
    obtain ⟨d', hd', hwithin⟩ := h.definition hd
    have hnames := h.valid'.fieldNames d' (List.mem_of_getElem? hd')
    have hcarried := Definition.carried_eq_map hnames hwithin.kind (horder hd hd' hk) hdeclared
    have hwritten : (c'.write (.object d.name members) (.one (.definition (σ index)))).written =
        ((d'.carried members).flatMap fun p =>
          Wire.uint p.1.value ++ (c'.write p.2 p.1.shape).written) ++ Wire.uint 0 := by
      rw [Shape.relocate, TypeRef.relocate, ← hwithin.name] at hs'
      rw [← hwithin.name]
      exact written_message hd' (hwithin.kind.trans hk) hs'
    rw [Shape.relocate, TypeRef.relocate, hwritten, written_message hd hk hs, hcarried,
      List.flatMap_map]
    congr 1
    refine List.flatMap_congr fun p hp => ?_
    obtain ⟨hf, hv, hdep⟩ := Definition.mem_carried.mp hp
    have hconforms := hmembers p.1 hf (hdep hk) p.2 hv
    rw [Field.shape_relocate, Field.value_relocate]
    congr 1
    exact ih p.1 hf (hdep hk) p.2 hv (succeeds_of_conforms hconforms)
      (succeeds_of_conforms (h.conforms hconforms))
  | @array type items hitems ih =>
    rw [Shape.relocate] at hs' ⊢
    rw [written_array hs, written_array hs']
    congr 1
    refine List.flatMap_congr fun v hv => ?_
    exact ih v hv (succeeds_of_conforms (hitems v hv))
      (succeeds_of_conforms (h.conforms (hitems v hv)))

theorem Within.encodeAs_eq_ok (h : Within σ c c') (horder : InOrder σ c c') {v : Value}
    {bytes : List UInt8} (hv : (c.encodeAs type v).result = .ok bytes) :
    (c'.encodeAs (type.relocate σ) v).result = .ok bytes := by
  obtain ⟨hconforms, rfl⟩ := encodeAs_eq_ok_iff.mp hv
  exact encodeAs_eq_ok_iff.mpr ⟨h.conforms hconforms, h.written_eq horder hconforms⟩

/-! ### Reading what was written -/

section Containers

variable {inner inner' : Shape → Reader DecodeError Value} {qs : List (Field × Value)}
  {encode : Field × Value → List UInt8}
  (h : ∀ q ∈ qs, Coincides (encode q) (inner q.1.shape) (inner' (q.1.shape.relocate σ)))
include h

theorem coincides_readStruct (hwithin : d.Within σ d') (hk : d.kind = .struct)
    (hfields : qs.map Prod.fst = d.fields) :
    Coincides (qs.flatMap encode) (readStruct inner d) (readStruct inner' d') := by
  rw [readStruct, readStruct, hwithin.name, hwithin.struct hk, ← hfields, Reader.foldl_map,
    Reader.foldl_map, Reader.foldl_map]
  refine (Coincides.foldl (fun q hq members => ?_) []).map _
  rw [Field.shape_relocate]
  exact (h q hq).map (Table.insert q.1.name · members)

/-- The members that were written of a message, one after the other up to the id 0. -/
theorem coincides_readMembers {fuel : Nat} (hfuel : qs.length ≤ fuel)
    (hq : ∀ q ∈ qs, d.fieldOfValue? q.1.value = some q.1 ∧
      d'.fieldOfValue? q.1.value = some (q.1.relocate σ) ∧
      q.1.value ≠ 0 ∧ q.1.isDeprecated = false) (members : List (String × Value)) :
    Coincides ((qs.flatMap fun q => Wire.uint q.1.value ++ encode q) ++ Wire.uint 0)
      (readMembers inner d fuel members) (readMembers inner' d' fuel members) := by
  have huint : ∀ n, Takes (Reader.mapError DecodeError.buffer Reader.uint) (Wire.uint n) n :=
    fun n => Takes.mapError (Reader.takes_uint n)
  induction qs generalizing fuel members with
  | nil =>
    cases fuel with
    | zero => exact .of_takes ((huint 0).map (Takes.pure _))
    | succ fuel =>
      rw [List.flatMap_nil, List.nil_append, ← List.append_nil (Wire.uint 0)]
      exact .bind_takes (huint 0) (.pure _)
  | cons q qs ih =>
    obtain ⟨hhead, htail⟩ := List.forall_mem_cons.mp hq
    obtain ⟨hvalue, hvalue', hzero, hdep⟩ := hhead
    obtain ⟨hmember, hmembers⟩ := List.forall_mem_cons.mp h
    obtain ⟨fuel, rfl⟩ : ∃ n, fuel = n + 1 := ⟨fuel - 1, by simp at hfuel; omega⟩
    rw [List.flatMap_cons, List.append_assoc, List.append_assoc]
    refine .bind_takes (huint q.1.value) ?_
    rw [if_neg hzero, if_neg hzero]
    refine Coincides.bind ?_ fun {_ _ members _} _ =>
      ih hmembers (by simpa using hfuel) htail members
    simp only [readMember, hvalue, hvalue', Field.shape_relocate, Field.isDeprecated_relocate,
      Field.name_relocate, hdep]
    exact hmember.map (Table.insert q.1.name · members)

theorem coincides_readMessage (hname : d'.name = d.name)
    (hq : ∀ q ∈ qs, d.fieldOfValue? q.1.value = some q.1 ∧
      d'.fieldOfValue? q.1.value = some (q.1.relocate σ) ∧
      q.1.value ≠ 0 ∧ q.1.isDeprecated = false) :
    Coincides ((qs.flatMap fun q => Wire.uint q.1.value ++ encode q) ++ Wire.uint 0)
      (readMessage inner d) (readMessage inner' d') := by
  rw [readMessage, readMessage, hname]
  refine .cursor fun here hhere => Coincides.map ?_ _
  exact coincides_readMembers h ((length_le_length_members qs encode).trans hhere) hq []

end Containers

/-- A count that is answered is the one that was written. -/
theorem eq_of_reads_readCount {n : UInt32} {k offset : Nat} {rest : List UInt8} {cursor : Cursor}
    (h : Reads (c.readCount type) ⟨offset, Wire.uint n ++ rest⟩ k cursor) :
    k = n.toNat ∧ cursor = ⟨offset + (Wire.uint n).length, rest⟩ := by
  rw [readCount_eq] at h
  obtain ⟨n', _, hn, h⟩ := Reader.reads_bind.mp h
  obtain ⟨rfl, rfl⟩ := hn.unique (Takes.mapError (Reader.takes_uint n) offset rest)
  obtain ⟨_, _, hcheck, h⟩ := Reader.reads_bind.mp h
  obtain ⟨-, rfl⟩ := reads_checkCount.mp hcheck
  obtain ⟨rfl, rfl⟩ := Reader.reads_pure.mp h
  exact ⟨rfl, rfl⟩

theorem coincides_array {type' : TypeRef} {items : List Value} {encode : Value → List UInt8}
    {m m' : Reader DecodeError Value} (hcount : c'.readCount type' = c.readCount type)
    (hlength : items.length < 2 ^ 32) (h : ∀ v ∈ items, Coincides (encode v) m m') :
    Coincides (Wire.count items ++ items.flatMap encode)
      (do let n ← c.readCount type; return Value.array (← m.times n))
      (do let n ← c'.readCount type'; return Value.array (← m'.times n)) := by
  have hreads : Coincides (Wire.count items) (c.readCount type) (c'.readCount type') :=
    ⟨fun _ _ => by rw [hcount], fun hn => (eq_of_reads_readCount hn).2⟩
  refine hreads.bind fun {_ _ n _} hn => ?_
  have hn : n = items.length :=
    (eq_of_reads_readCount hn).1.trans (UInt32.toNat_ofNat_of_lt hlength)
  rw [hn]
  exact (Coincides.times h).map _

theorem readWithin_primitive (htype : ∀ index, type ≠ .definition index) :
    c'.readWithin levels (.one type) = c.readWithin levels (.one type) := by
  cases type with
  | definition index => exact absurd rfl (htype index)
  | _ => cases levels <;> rfl

theorem readWithin_zero_definition (hd : c.definitions[index]? = some d) (hk : d.kind ≠ .enum) :
    c.readWithin 0 (.one (.definition index)) = Reader.fail .tooDeep := by
  cases hkind : d.kind <;> simp_all [readWithin, readShape]

theorem coincides_primitive (hc : c.Valid) {v : Value} (hv : Conforms c (.one type) v)
    (htype : ∀ index, type ≠ .definition index) (hdepth : v.depth = 0)
    (hnormal : (c.normal v).depth = 0) :
    Coincides (c.write v (.one type)).written (c.readWithin levels (.one type))
      (c'.readWithin levels (.one type)) := by
  have hreturns := returns_of_conforms hc hv (Value.ordered_of_depth hdepth)
    (Value.arraysFit_of_depth hdepth) levels
  have hread : c'.readWithin levels (.one type) = c.readWithin levels (.one type) :=
    readWithin_primitive htype
  rw [hread]
  exact .of_takes (hreturns.takes (fits_of_depth hnormal))

/-- What was written in the one catalog is read alike in the other, of which it is a part. By
induction on conformity, one level for each container. -/
theorem Within.coincides (h : Within σ c c') {shape : Shape} {v : Value} (hv : Conforms c shape v)
    (htype : c.Has shape.type) (hfit : v.ArraysFit) (levels : Nat) :
    Coincides (c.write v shape).written (c.readWithin levels shape)
      (c'.readWithin levels (shape.relocate σ)) := by
  have hs := succeeds_of_conforms hv
  induction hv generalizing levels with
  | bool b => exact coincides_primitive h.valid (.bool b) nofun rfl rfl
  | byte b => exact coincides_primitive h.valid (.byte b) nofun rfl rfl
  | int n => exact coincides_primitive h.valid (.int n) nofun rfl rfl
  | uint n => exact coincides_primitive h.valid (.uint n) nofun rfl rfl
  | float x => exact coincides_primitive h.valid (.float x) nofun rfl rfl
  | string hz => exact coincides_primitive h.valid (.string hz) nofun rfl rfl
  | @enum index d f entry hd hk hf =>
    obtain ⟨d', hd', hwithin⟩ := h.definition hd
    obtain ⟨hmem, rfl⟩ := Definition.of_field? hf
    have hvalue := h.valid.fieldOfValue?_value (List.mem_of_getElem? hd) (by simp [hk]) hmem
    have hvalue' :=
      h.valid'.fieldOfValue?_value (List.mem_of_getElem? hd') (by simp [hwithin.kind, hk])
        (hwithin.mem f hmem)
    have hwritten : (c.write (.enum d.name f.name) (.one (.definition index))).written =
        Wire.uint f.value ++ [] := by
      simp [write, writeEntry, hd, hk, hf]
    rw [Field.value_relocate] at hvalue'
    rw [hwritten, readWithin_enum hd hk, Shape.relocate, TypeRef.relocate,
      readWithin_enum hd' (hwithin.kind.trans hk)]
    -- only the value that was written is looked up; the other enum may have entries for more
    refine .bind_takes (Takes.mapError (Reader.takes_uint f.value)) ?_
    rw [hvalue, hvalue', hwithin.name]
    exact .pure _
  | @struct index d members hd hk hdeclared hpresent hmembers ih =>
    obtain ⟨d', hd', hwithin⟩ := h.definition hd
    have hfit := Value.arraysFit_object_iff.mp hfit
    rw [Shape.relocate, TypeRef.relocate]
    cases levels with
    | zero =>
      rw [readWithin_zero_definition hd (by simp [hk]),
        readWithin_zero_definition hd' (by simp [hwithin.kind, hk])]
      exact .fail _
    | succ levels =>
      rw [readWithin_succ_definition hd, readWithin_succ_definition hd', hwithin.kind, hk,
        written_struct hd hk hs]
      refine coincides_readStruct (fun q hq => ?_) hwithin hk
        (Definition.map_fst_carried hk hpresent)
      obtain ⟨hf, hv, -⟩ := Definition.mem_carried.mp hq
      exact ih q.1 hf q.2 hv (h.closed.has_field hd hf) (hfit _ (Table.mem_of_get? hv)) levels
        (succeeds_of_conforms (hmembers q.1 hf q.2 hv))
  | @message index d members hd hk hdeclared hmembers ih =>
    obtain ⟨d', hd', hwithin⟩ := h.definition hd
    have hfit := Value.arraysFit_object_iff.mp hfit
    have hmem := List.mem_of_getElem? hd
    rw [Shape.relocate, TypeRef.relocate]
    cases levels with
    | zero =>
      rw [readWithin_zero_definition hd (by simp [hk]),
        readWithin_zero_definition hd' (by simp [hwithin.kind, hk])]
      exact .fail _
    | succ levels =>
      rw [readWithin_succ_definition hd, readWithin_succ_definition hd', hwithin.kind, hk,
        written_message hd hk hs]
      have hcarried : ∀ q ∈ d.carried members,
          Coincides (c.write q.2 q.1.shape).written (c.readWithin levels q.1.shape)
            (c'.readWithin levels (q.1.shape.relocate σ)) := by
        intro q hq
        obtain ⟨hf, hv, hdep⟩ := Definition.mem_carried.mp hq
        exact ih q.1 hf (hdep hk) q.2 hv (h.closed.has_field hd hf)
          (hfit _ (Table.mem_of_get? hv)) levels
          (succeeds_of_conforms (hmembers q.1 hf (hdep hk) q.2 hv))
      -- an id leads to its field in both, though the other message may declare more of them
      refine coincides_readMessage hcarried hwithin.name fun q hq => ?_
      obtain ⟨hf, -, hdep⟩ := Definition.mem_carried.mp hq
      exact ⟨h.valid.fieldOfValue?_value hmem (by simp [hk]) hf,
        h.valid'.fieldOfValue?_value (List.mem_of_getElem? hd') (by simp [hwithin.kind, hk])
          (hwithin.mem _ hf),
        h.valid.ids d hmem hk _ hf, hdep hk⟩
  | @array type items hitems ih =>
    obtain ⟨hlength, hfit⟩ := Value.arraysFit_array_iff.mp hfit
    rw [written_array hs]
    cases levels with
    | zero => exact .fail _
    | succ levels =>
      refine coincides_array (h.readCount_eq htype) hlength fun v hv => ?_
      exact ih v hv htype (hfit v hv) levels (succeeds_of_conforms (hitems v hv))

theorem Within.decodeAs_eq (h : Within σ c c') (htype : c.Has type) {v : Value} (hfit : v.ArraysFit)
    {bytes : List UInt8} (hv : (c.encodeAs type v).result = .ok bytes) :
    c'.decodeAs (type.relocate σ) bytes = c.decodeAs type bytes := by
  obtain ⟨hconforms, rfl⟩ := encodeAs_eq_ok_iff.mp hv
  have hrun := (h.coincides hconforms htype hfit maxDepth).run 0 []
  rw [List.append_nil] at hrun
  have hread : c'.readValue (type.relocate σ) (.start _) = c.readValue type (.start _) := hrun
  rw [decodeAs, decodeAs, hread]

/-! ### What comes back -/

theorem Within.drops_eq (h : Within σ c c') (hd : c.definitions[index]? = some d) {f : Field}
    (hf : f ∈ d.fields) : c'.drops d.name f.name = c.drops d.name f.name := by
  obtain ⟨d', hd', hwithin⟩ := h.definition hd
  have hdrops := h.valid'.drops_eq (List.mem_of_getElem? hd') (hwithin.mem f hf)
  rw [hwithin.name, hwithin.kind, Field.name_relocate, Field.isDeprecated_relocate] at hdrops
  rw [Bool.eq_iff_iff, hdrops, h.valid.drops_eq (List.mem_of_getElem? hd) hf]

theorem normalMembers_congr {name : String}
    (hdrops : ∀ p ∈ members, c'.drops name p.1 = c.drops name p.1)
    (h : ∀ p ∈ members, c.drops name p.1 = false → c'.normal p.2 = c.normal p.2) :
    c'.normalMembers name members = c.normalMembers name members := by
  rw [normalMembers_eq, normalMembers_eq, List.filter_congr fun p hp => by rw [hdrops p hp]]
  refine List.map_congr_left fun p hp => ?_
  obtain ⟨hp, hkept⟩ := List.mem_filter.mp hp
  rw [h p hp (by simpa using hkept)]

theorem Within.normal_eq (h : Within σ c c') {shape : Shape} {v : Value} (hv : Conforms c shape v)
    (hordered : v.Ordered) : c'.normal v = c.normal v := by
  induction hv with
  | bool | byte | int | uint | float | string | enum => rfl
  | @struct index d members hd hk hdeclared hpresent hmembers ih =>
    obtain ⟨hsorted, hordered⟩ := Value.ordered_object_iff.mp hordered
    rw [normal, normal, normalMembers_congr]
    · intro p hp
      obtain ⟨f, hf, hname⟩ := hdeclared p hp
      rw [← hname, h.drops_eq hd hf]
    · intro p hp _
      obtain ⟨f, hf, hname⟩ := hdeclared p hp
      exact ih f hf p.2 (hname ▸ Table.get?_of_mem hsorted hp) (hordered p hp)
  | @message index d members hd hk hdeclared hmembers ih =>
    obtain ⟨hsorted, hordered⟩ := Value.ordered_object_iff.mp hordered
    rw [normal, normal, normalMembers_congr]
    · intro p hp
      obtain ⟨f, hf, hname⟩ := hdeclared p hp
      rw [← hname, h.drops_eq hd hf]
    · intro p hp hkept
      obtain ⟨f, hf, hname⟩ := hdeclared p hp
      have hdep : f.isDeprecated = false := by
        rw [← hname, Bool.eq_false_iff, ne_eq, h.valid.drops_eq (List.mem_of_getElem? hd) hf]
          at hkept
        simpa [hk] using hkept
      exact ih f hf hdep p.2 (hname ▸ Table.get?_of_mem hsorted hp) (hordered p hp)
  | @array type items hitems ih =>
    have hordered := Value.ordered_array_iff.mp hordered
    rw [normal_array, normal_array, List.map_congr_left fun v hv => ih v hv (hordered v hv)]

/-- An object keeps to the limits of reading in the one catalog if it does in the other, since the
same members are carried. -/
theorem Within.fits_object_iff (h : Within σ c c') (hd : c.definitions[index]? = some d)
    (hdeclared : ∀ p ∈ members, ∃ f ∈ d.fields, f.name = p.1) (hsorted : Table.Sorted members)
    (hmembers : ∀ q ∈ d.carried members, ∀ levels,
      c'.Fits levels (q.1.shape.relocate σ) (c'.normal q.2) ↔
        c.Fits levels q.1.shape (c.normal q.2)) :
    c'.Fits levels (.one (.definition (σ index))) (c'.normal (.object d.name members)) ↔
      c.Fits levels (.one (.definition index)) (c.normal (.object d.name members)) := by
  obtain ⟨d', hd', hwithin⟩ := h.definition hd
  have hdeclared' : ∀ p ∈ members, ∃ f ∈ d'.fields, f.name = p.1 := fun p hp =>
    (hdeclared p hp).imp' _ fun f hf => ⟨hwithin.mem f hf.1, hf.2⟩
  cases levels with
  | zero =>
    exact iff_of_false (not_fits_zero (Value.depth_object_pos _ _))
      (not_fits_zero (Value.depth_object_pos _ _))
  | succ levels =>
    rw [h.valid.fits_normal_object_iff hd hdeclared hsorted, ← hwithin.name,
      h.valid'.fits_normal_object_iff hd' hdeclared' hsorted]
    constructor
    · rintro hall ⟨f, v⟩ hq
      obtain ⟨hf, hv, hdep⟩ := Definition.mem_carried.mp hq
      have hq' : (f.relocate σ, v) ∈ d'.carried members :=
        Definition.mem_carried.mpr ⟨hwithin.mem f hf, hv, fun hk => hdep (hwithin.kind ▸ hk)⟩
      rw [← hmembers _ hq, ← Field.shape_relocate]
      exact hall _ hq'
    · rintro hall ⟨f', v⟩ hq'
      obtain ⟨hf', hv, hdep⟩ := Definition.mem_carried.mp hq'
      obtain ⟨f, hf, rfl⟩ := h.exists_field (List.mem_of_getElem? hd') hwithin hf'
        (hdeclared _ (Table.mem_of_get? hv))
      have hq : (f, v) ∈ d.carried members :=
        Definition.mem_carried.mpr ⟨hf, hv, fun hk => hdep (hwithin.kind.trans hk)⟩
      rw [Field.shape_relocate]
      exact (hmembers _ hq levels).mpr (hall _ hq)

theorem Within.fits_iff (h : Within σ c c') {shape : Shape} {v : Value} (hv : Conforms c shape v)
    (htype : c.Has shape.type) (hordered : v.Ordered) (levels : Nat) :
    c'.Fits levels (shape.relocate σ) (c'.normal v) ↔ c.Fits levels shape (c.normal v) := by
  induction hv generalizing levels with
  | bool | byte | int | uint | float | string | enum =>
    exact iff_of_true (fits_of_depth rfl) (fits_of_depth rfl)
  | @struct index d members hd hk hdeclared hpresent hmembers ih =>
    obtain ⟨hsorted, hordered⟩ := Value.ordered_object_iff.mp hordered
    refine h.fits_object_iff hd hdeclared hsorted fun q hq => ?_
    obtain ⟨hf, hv, -⟩ := Definition.mem_carried.mp hq
    exact ih q.1 hf q.2 hv (h.closed.has_field hd hf) (hordered _ (Table.mem_of_get? hv))
  | @message index d members hd hk hdeclared hmembers ih =>
    obtain ⟨hsorted, hordered⟩ := Value.ordered_object_iff.mp hordered
    refine h.fits_object_iff hd hdeclared hsorted fun q hq => ?_
    obtain ⟨hf, hv, hdep⟩ := Definition.mem_carried.mp hq
    exact ih q.1 hf (hdep hk) q.2 hv (h.closed.has_field hd hf) (hordered _ (Table.mem_of_get? hv))
  | @array type items hitems ih =>
    have hordered := Value.ordered_array_iff.mp hordered
    rw [normal_array, normal_array, Shape.relocate]
    cases levels with
    | zero =>
      exact iff_of_false (not_fits_zero (Value.depth_array_pos _))
        (not_fits_zero (Value.depth_array_pos _))
    | succ levels =>
      have hzero : c'.isZeroWidth (type.relocate σ) = c.isZeroWidth type := h.isZeroWidth_eq htype
      rw [fits_array_iff, fits_array_iff, hzero, List.length_map, List.length_map,
        List.forall_mem_map, List.forall_mem_map]
      exact and_congr_right fun _ => forall₂_congr fun v hv => ih v hv htype (hordered v hv) levels

/-- A value comes back from the bytes of either catalog as the same value, or from neither. -/
theorem Within.decodeAs_eq_ok_iff (h : Within σ c c') (htype : c.Has type) {v w : Value}
    {bytes bytes' : List UInt8} (hordered : v.Ordered) (hfit : v.ArraysFit)
    (hv : (c.encodeAs type v).result = .ok bytes)
    (hv' : (c'.encodeAs (type.relocate σ) v).result = .ok bytes') :
    (c'.decodeAs (type.relocate σ) bytes').result = .ok w ↔
      (c.decodeAs type bytes).result = .ok w := by
  obtain ⟨hconforms, -⟩ := encodeAs_eq_ok_iff.mp hv
  have hfits : c'.Fits maxDepth (.one (type.relocate σ)) (c'.normal v) ↔
      c.Fits maxDepth (.one type) (c.normal v) :=
    h.fits_iff hconforms htype hordered maxDepth
  rw [h.valid.decodeAs_eq_ok_iff hordered hfit hv,
    h.valid'.decodeAs_eq_ok_iff hordered hfit hv', hfits, h.normal_eq hconforms hordered]

end WireSchema.Catalog
