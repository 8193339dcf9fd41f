import Mathlib.Data.List.Forall2
import WireSchema.Proofs.Catalog.Binary
import WireSchema.Proofs.Catalog.ZeroWidth
import WireSchema.Value.Decode

/-! Compiling two schemas of which one is the other with some of its message fields altered: the
catalogs differ in the same way. -/

namespace WireSchema

namespace Catalog

/-- `c'` has the definitions of `c`, in which `alter` has changed nothing but fields of messages. -/
structure AltersMessages (c c' : Catalog) (alter : Definition → Definition) : Prop where
  definitions : c'.definitions = c.definitions.map alter
  name : ∀ d, (alter d).name = d.name
  kind : ∀ d, (alter d).kind = d.kind
  fixed : ∀ d ∈ c.definitions, d.kind ≠ .message → alter d = d

variable {c c' : Catalog} {alter : Definition → Definition}

namespace AltersMessages

theorem getElem? (h : AltersMessages c c' alter) (index : Nat) :
    c'.definitions[index]? = c.definitions[index]?.map alter := by
  rw [h.definitions, List.getElem?_map]

theorem getElem?_iff_of_kind (h : AltersMessages c c' alter) {index : Nat} {d : Definition}
    (hk : d.kind ≠ .message) :
    c'.definitions[index]? = some d ↔ c.definitions[index]? = some d := by
  rw [h.getElem?, Option.map_eq_some_iff]
  constructor
  · rintro ⟨d₀, hd₀, rfl⟩
    rwa [h.fixed d₀ (List.mem_of_getElem? hd₀) (h.kind d₀ ▸ hk)]
  · exact fun hd => ⟨d, hd, h.fixed d (List.mem_of_getElem? hd) hk⟩

/-- Which types take no bytes does not depend on the fields of messages. -/
theorem zeroWidthWithin_eq (h : AltersMessages c c' alter) (levels : Nat) (type : TypeRef) :
    c'.zeroWidthWithin levels type = c.zeroWidthWithin levels type := by
  induction levels generalizing type with
  | zero => rfl
  | succ levels ih =>
    have hplace : ∀ (index : Nat) (d : Definition), d.kind = .struct →
        (c'.definitions[index]? = some d ↔ c.definitions[index]? = some d) :=
      fun index d hk => h.getElem?_iff_of_kind (by simp [hk])
    rw [Bool.eq_iff_iff, zeroWidthWithin_succ_iff, zeroWidthWithin_succ_iff]
    simp only [ih]
    constructor
    · rintro ⟨index, d, htype, hd, hk, hfields⟩
      exact ⟨index, d, htype, (hplace index d hk).mp hd, hk, hfields⟩
    · rintro ⟨index, d, htype, hd, hk, hfields⟩
      exact ⟨index, d, htype, (hplace index d hk).mpr hd, hk, hfields⟩

theorem readCount_eq (h : AltersMessages c c' alter) (type : TypeRef) :
    c'.readCount type = c.readCount type := by
  have hzero : c'.isZeroWidth type = c.isZeroWidth type := by
    rw [isZeroWidth, isZeroWidth, h.zeroWidthWithin_eq, h.definitions, List.length_map]
  rw [readCount, readCount, hzero]

end AltersMessages

end Catalog

namespace Schema

variable {s s' : Schema} {c c' : Catalog} {d : Definition} {gone : String → String → Bool}

/-- `f` is a field of the message of a name. -/
def HasMessageField (s : Schema) (type : String) (f : Field) : Prop :=
  ∃ d ∈ s.definitions, d.name = type ∧ d.kind = .message ∧ f ∈ d.fields

/-! ### What compiling looks at -/

theorem compile_iff_of_withoutPositions (h : s'.withoutPositions = s.withoutPositions) :
    s'.compile.result = .ok c ↔ s.compile.result = .ok c := by
  rw [← compile_withoutPositions_iff, h, compile_withoutPositions_iff]

theorem typeOf?_of_names (h : s'.definitions.map (·.name) = s.definitions.map (·.name))
    (name : String) : s'.typeOf? name = s.typeOf? name := by
  have hindex : ∀ t : Schema, t.indexOf? name =
      lastIndex? (· == name) (t.definitions.map (·.name)) := by
    intro t
    rw [lastIndex?_map]
    rfl
  rw [typeOf?, typeOf?, hindex, hindex, h]

/-- Only the types that names stand for matter of the rest of the schema. -/
theorem Field.compile_congr (h : ∀ name, s'.typeOf? name = s.typeOf? name) :
    Field.compile s' = Field.compile s := by
  funext kind f place
  simp only [Field.compile, h]

theorem Definition.compile_congr (h : ∀ name, s'.typeOf? name = s.typeOf? name) :
    d.compile s' = d.compile s := by
  simp only [Definition.compile, Field.compile_congr h]

/-- The place of a field matters in structs alone. -/
theorem Definition.fields_of_compile {d' : Catalog.Definition} (hk : d.kind ≠ .struct)
    (h : d.compile s = .ok d') :
    List.Forall₂ (fun f g => f.compile s d.kind 0 = .ok g) d.fields d'.fields := by
  have hplace : ∀ f place, Field.compile s d.kind f place = Field.compile s d.kind f 0 := by
    intro f place
    cases hkind : d.kind with
    | struct => exact absurd hkind hk
    | _ => rfl
  have hfields := (Definition.of_compile h).2.2
  simp only [hplace] at hfields
  rw [← List.zipIdx_map_fst 0 d.fields]
  exact List.forall₂_map_left_iff.mpr hfields

theorem Definition.exists_of_mem_fields {d' : Catalog.Definition} (h : d.compile s = .ok d')
    {g : Catalog.Field} (hg : g ∈ d'.fields) :
    ∃ f ∈ d.fields, ∃ place, f.compile s d.kind place = .ok g := by
  obtain ⟨⟨f, place⟩, hf, hcompile⟩ := Except.exists_of_forall₂ (Definition.of_compile h).2.2 hg
  exact ⟨f, List.mem_of_getElem? (List.mem_zipIdx_iff_getElem?.mp hf), place, hcompile⟩

/-! ### Altered definitions -/

/-- The catalogs differ as the schemas do, if messages are compiled to altered messages field by
field, and nothing else is altered. -/
theorem altersMessages_of_compile (alter : Definition → Definition)
    (alter' : Catalog.Definition → Catalog.Definition)
    (hs : s'.definitions = s.definitions.map alter) (h : s.compile.result = .ok c)
    (h' : s'.compile.result = .ok c')
    (hsame : ∀ d, (alter d).name = d.name ∧ (alter d).kind = d.kind)
    (hsame' : ∀ d, (alter' d).name = d.name ∧ (alter' d).kind = d.kind)
    (hfixed : ∀ d ∈ s.definitions, ∀ d', d.compile s = .ok d' → d.kind ≠ .message →
      alter d = d ∧ alter' d' = d')
    (hfields : ∀ d d', d.compile s = .ok d' → d.kind = .message →
      List.Forall₂ (fun f g => f.compile s .message 0 = .ok g) (alter d).fields
        (alter' d').fields) :
    Catalog.AltersMessages c c' alter' where
  definitions := by
    have htype : ∀ name, s'.typeOf? name = s.typeOf? name :=
      typeOf?_of_names (by rw [hs, List.map_map]; exact List.map_congr_left fun d _ => (hsame d).1)
    have hdefs := (compile_eq_ok_iff.mp h).2
    have hdefs' := (compile_eq_ok_iff.mp h').2
    rw [hs, List.forall₂_map_left_iff] at hdefs'
    refine Except.eq_map_of_forall₂ hdefs hdefs' fun d hd d₁ d₂ h₁ h₂ => ?_
    rw [Definition.compile_congr htype] at h₂
    by_cases hk : d.kind = .message
    · obtain ⟨hname₁, hkind₁, -⟩ := Definition.of_compile h₁
      obtain ⟨hname₂, hkind₂, -⟩ := Definition.of_compile h₂
      have hk₂ : (alter d).kind = .message := (hsame d).2.trans hk
      have hfields₂ := Definition.fields_of_compile (by simp [hk₂]) h₂
      rw [hk₂] at hfields₂
      have hfields₂ :=
        List.right_unique_forall₂' (fun f g g' hg hg' => Except.ok.inj (hg.symm.trans hg')) hfields₂
          (hfields d d₁ h₁ hk)
      have hname : d₂.name = (alter' d₁).name := by rw [hname₂, (hsame d).1, (hsame' d₁).1, hname₁]
      have hkind : d₂.kind = (alter' d₁).kind := by rw [hkind₂, (hsame d).2, (hsame' d₁).2, hkind₁]
      show (⟨d₂.name, d₂.kind, d₂.fields⟩ : Catalog.Definition) = _
      rw [hname, hkind, hfields₂]
    · obtain ⟨hself, hself'⟩ := hfixed d hd d₁ h₁ hk
      rw [hself] at h₂
      rw [hself', Except.ok.inj (h₁.symm.trans h₂)]
  name d := (hsame' d).1
  kind d := (hsame' d).2
  fixed d' hd hk := by
    obtain ⟨d, hd, hcompile⟩ := exists_of_mem_compile h hd
    exact (hfixed d hd d' hcompile ((Definition.of_compile hcompile).2.1 ▸ hk)).2

/-- The message of a name is the definition of that name. -/
theorem HasMessageField.mem (h : s.compile.result = .ok c) (hd : d ∈ s.definitions) {f : Field}
    (hf : s.HasMessageField d.name f) : d.kind = .message ∧ f ∈ d.fields := by
  obtain ⟨d₀, hd₀, hname, hkind, hf⟩ := hf
  have hnames := (valid_of_check (compile_eq_ok_iff.mp h).1).names
  obtain rfl : d₀ = d := List.inj_on_of_nodup_map hnames hd₀ hd hname
  exact ⟨hkind, hf⟩

theorem HasMessageField.exists_field (h : s.compile.result = .ok c) {d : Catalog.Definition}
    (hd : d ∈ c.definitions) {f : Field} (hf : s.HasMessageField d.name f) :
    ∃ g ∈ d.fields, g.name = f.name := by
  obtain ⟨d₀, hd₀, hcompile⟩ := exists_of_mem_compile h hd
  rw [(Definition.of_compile hcompile).1] at hf
  have hnames := Definition.map_of_compile (q := (·.name)) hcompile Field.name_of_compile
  have hmem : f.name ∈ d.fields.map (·.name) := hnames ▸ List.mem_map_of_mem (hf.mem h hd₀).2
  exact List.mem_map.mp hmem

/-- What is gone from messages is gone from nothing else, since no two definitions share a name. -/
theorem kept_of_kind (h : s.compile.result = .ok c)
    (hgone : ∀ type name, gone type name = true → ∃ f, s.HasMessageField type f)
    (hd : d ∈ s.definitions) (hk : d.kind ≠ .message) (name : String) :
    gone d.name name = false := by
  rw [Bool.eq_false_iff]
  intro htrue
  obtain ⟨f, hf⟩ := hgone _ _ htrue
  exact hk (hf.mem h hd).1

theorem kept_of_compile (h : s.compile.result = .ok c)
    (hgone : ∀ type name, gone type name = true → ∃ f, s.HasMessageField type f)
    {d : Catalog.Definition} (hd : d ∈ c.definitions) (hk : d.kind ≠ .message) (name : String) :
    gone d.name name = false := by
  obtain ⟨d₀, hd₀, hcompile⟩ := exists_of_mem_compile h hd
  obtain ⟨hname, hkind, -⟩ := Definition.of_compile hcompile
  rw [hname]
  exact kept_of_kind h hgone hd₀ (hkind ▸ hk) name

end Schema

end WireSchema
