import WireSchema.Proofs.Catalog.Closed

/-! Catalogs of which one has the definitions of the other at other places, with some more
definitions perhaps, and some more fields in its messages and enums. Which types take no bytes is
the same in both, and a value that conforms to a type of the one conforms to that type in the
other. -/

namespace WireSchema

/-- The type after the definitions have moved to other places. -/
def TypeRef.relocate (σ : Nat → Nat) : TypeRef → TypeRef
  | .definition index => .definition (σ index)
  | type => type

def Shape.relocate (σ : Nat → Nat) : Shape → Shape
  | .one type => .one (type.relocate σ)
  | .many type => .many (type.relocate σ)

@[simp] theorem TypeRef.relocate_self (type : TypeRef) :
    type.relocate (fun index => index) = type := by
  cases type <;> rfl

namespace Catalog

def Field.relocate (σ : Nat → Nat) (f : Field) : Field := { f with type := f.type.relocate σ }

variable {σ : Nat → Nat} {c c' : Catalog} {d d' : Definition}

@[simp] theorem Field.name_relocate (f : Field) : (f.relocate σ).name = f.name := rfl

@[simp] theorem Field.value_relocate (f : Field) : (f.relocate σ).value = f.value := rfl

@[simp] theorem Field.isArray_relocate (f : Field) : (f.relocate σ).isArray = f.isArray := rfl

@[simp] theorem Field.isDeprecated_relocate (f : Field) :
    (f.relocate σ).isDeprecated = f.isDeprecated := rfl

@[simp] theorem Field.shape_relocate (f : Field) : (f.relocate σ).shape = f.shape.relocate σ := by
  rw [Field.shape, Field.shape, Field.isArray_relocate]
  split <;> rfl

/-- The fields of a definition are among those of another of its name and kind; of a struct they are
all. -/
structure Definition.Within (σ : Nat → Nat) (d d' : Definition) : Prop where
  name : d'.name = d.name
  kind : d'.kind = d.kind
  mem : ∀ f ∈ d.fields, f.relocate σ ∈ d'.fields
  struct : d.kind = .struct → d'.fields = d.fields.map (Field.relocate σ)

/-- Each definition of `c` has its place in `c'`. -/
structure Within (σ : Nat → Nat) (c c' : Catalog) : Prop where
  valid : c.Valid
  valid' : c'.Valid
  closed : c.Closed
  definition : ∀ {index d}, c.definitions[index]? = some d →
    ∃ d', c'.definitions[σ index]? = some d' ∧ d.Within σ d'

/-- The fields of messages have kept their order. -/
def InOrder (σ : Nat → Nat) (c c' : Catalog) : Prop :=
  ∀ ⦃index d d'⦄, c.definitions[index]? = some d → c'.definitions[σ index]? = some d' →
    d.kind = .message →
    (d.fields.map (Field.relocate σ)).Sublist d'.fields

/-- No definition has got more fields. -/
def Onto (σ : Nat → Nat) (c c' : Catalog) : Prop :=
  ∀ ⦃index d d'⦄, c.definitions[index]? = some d → c'.definitions[σ index]? = some d' →
    ∀ f' ∈ d'.fields, ∃ f ∈ d.fields, f.relocate σ = f'

/-! ### Types that take no bytes -/

theorem Closed.has_field (hc : c.Closed) {index : Nat}
    (hd : c.definitions[index]? = some d) {f : Field} (hf : f ∈ d.fields) : c.Has f.shape.type := by
  rw [Field.type_shape]
  exact hc d (List.mem_of_getElem? hd) f hf

namespace Within

theorem zeroWidthWithin_iff (h : Within σ c c') (levels : Nat) {type : TypeRef}
    (htype : c.Has type) :
    c'.zeroWidthWithin levels (type.relocate σ) = true ↔ c.zeroWidthWithin levels type = true := by
  induction levels generalizing type with
  | zero => simp [zeroWidthWithin]
  | succ levels ih =>
    cases type with
    | definition index =>
      obtain ⟨d, hd⟩ := htype.exists_getElem?
      obtain ⟨d', hd', hwithin⟩ := h.definition hd
      rw [TypeRef.relocate, zeroWidthWithin_definition_iff hd, zeroWidthWithin_definition_iff hd',
        hwithin.kind]
      refine and_congr_right fun hk => ?_
      rw [hwithin.struct hk, List.forall_mem_map]
      refine forall₂_congr fun f hf => and_congr_right fun _ => ih ?_
      exact h.closed d (List.mem_of_getElem? hd) f hf
    | _ => simp [TypeRef.relocate, zeroWidthWithin]

theorem isZeroWidth_eq (h : Within σ c c') {type : TypeRef} (htype : c.Has type) :
    c'.isZeroWidth (type.relocate σ) = c.isZeroWidth type := by
  rw [Bool.eq_iff_iff, isZeroWidth_iff_within, isZeroWidth_iff_within]
  exact exists_congr fun levels => h.zeroWidthWithin_iff levels htype

theorem readCount_eq (h : Within σ c c') {type : TypeRef} (htype : c.Has type) :
    c'.readCount (type.relocate σ) = c.readCount type := by
  rw [readCount, readCount, h.isZeroWidth_eq htype]

end Within

/-! ### Values that conform -/

/-- A field of the larger definition whose name is declared in the smaller one is a field of
that. -/
theorem Within.exists_field (h : Within σ c c') (hd : d' ∈ c'.definitions) (hwithin : d.Within σ d')
    {f' : Field} (hf' : f' ∈ d'.fields) (hname : ∃ f ∈ d.fields, f.name = f'.name) :
    ∃ f ∈ d.fields, f' = f.relocate σ := by
  obtain ⟨f, hf, hname⟩ := hname
  exact ⟨f, hf, h.valid'.field_eq hd hf' (hwithin.mem f hf) hname.symm⟩

theorem Within.conforms (h : Within σ c c') {shape : Shape} {v : Value} (hv : Conforms c shape v) :
    Conforms c' (shape.relocate σ) v := by
  induction hv with
  | bool b => exact .bool b
  | byte b => exact .byte b
  | int n => exact .int n
  | uint n => exact .uint n
  | float x => exact .float x
  | string hs => exact .string hs
  | @enum index d f entry hd hk hf =>
    obtain ⟨d', hd', hwithin⟩ := h.definition hd
    obtain ⟨hmem, rfl⟩ := Definition.of_field? hf
    rw [← hwithin.name]
    have hfield := h.valid'.field?_name (List.mem_of_getElem? hd') (hwithin.mem f hmem)
    exact .enum hd' (hwithin.kind.trans hk) hfield
  | @struct index d members hd hk hdeclared hpresent hmembers ih =>
    obtain ⟨d', hd', hwithin⟩ := h.definition hd
    rw [← hwithin.name]
    refine .struct hd' (hwithin.kind.trans hk) ?_ ?_ ?_
    · exact fun p hp => (hdeclared p hp).imp' _ fun f hf => ⟨hwithin.mem f hf.1, hf.2⟩
    · rw [hwithin.struct hk, List.forall_mem_map]
      exact hpresent
    · rw [hwithin.struct hk, List.forall_mem_map]
      intro f hf v hv
      rw [Field.shape_relocate]
      exact ih f hf v hv
  | @message index d members hd hk hdeclared hmembers ih =>
    obtain ⟨d', hd', hwithin⟩ := h.definition hd
    rw [← hwithin.name]
    refine .message hd' (hwithin.kind.trans hk) ?_ ?_
    · exact fun p hp => (hdeclared p hp).imp' _ fun f hf => ⟨hwithin.mem f hf.1, hf.2⟩
    · intro f' hf' hdep v hv
      have hname := hdeclared _ (Table.mem_of_get? hv)
      obtain ⟨f, hf, rfl⟩ := h.exists_field (List.mem_of_getElem? hd') hwithin hf' hname
      rw [Field.shape_relocate]
      exact ih f hf hdep v hv
  | array hitems ih => exact .array ih

end Catalog

end WireSchema
