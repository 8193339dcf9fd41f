import WireSchema.Proofs.Catalog.Resolution
import WireSchema.Proofs.Schema.Rearrangement

/-! What compiling makes of two schemas of which one is a rearrangement of the other: each
definition has its place in both, with the same fields. -/

namespace WireSchema.Schema

variable {loose : List Kind} {s s' : Schema} {c c' : Catalog} {d d' : Definition} {name : String}

/-- Where the definition at some place of `s` stands in `s'`. -/
def place (s s' : Schema) (index : Nat) : Nat :=
  ((s.definitions[index]?).bind fun d => s'.indexOf? d.name).getD 0

theorem Definition.Reorders.within (h : d.Reorders loose d') (hloose : .struct ∉ loose) :
    d.Within d' where
  name := h.name
  kind := h.kind
  mem _ hf := h.fields.subset hf
  struct hk := h.fixed (hk ▸ hloose)

namespace Rearranges

theorem exists_compile (h : s.Rearranges loose s') (hs : ∃ c, s.compile.result = .ok c) :
    ∃ c', s'.compile.result = .ok c' := by
  obtain ⟨c, hc⟩ := hs
  obtain ⟨hvalid, hknown, -⟩ := compile_eq_ok_iff_valid.mp hc
  refine ⟨⟨s'.definitions.map (Definition.resolved s')⟩,
    compile_eq_ok_iff_valid.mpr ⟨h.valid hvalid, ?_, rfl⟩⟩
  intro d' hd' f hf name hname
  obtain ⟨d, hd, hreorders⟩ := h.symm.exists_mem hd'
  exact h.isSome_typeOf? (hknown d hd f (hreorders.fields.subset hf) name hname)

theorem exists_getElem? (h : s.Rearranges loose s') (hnames : (s'.definitions.map (·.name)).Nodup)
    {index : Nat} (hd : s.definitions[index]? = some d) :
    ∃ d', s'.definitions[s.place s' index]? = some d' ∧ d.Reorders loose d' := by
  obtain ⟨d', hd', hreorders⟩ := h.exists_mem (List.mem_of_getElem? hd)
  obtain ⟨index', hindex'⟩ := List.mem_iff_getElem?.mp hd'
  have hindex : s'.indexOf? d.name = some index' :=
    (indexes_lastIndex? hnames).find_eq_some_iff.mpr ⟨d', hindex', hreorders.name⟩
  refine ⟨d', ?_, hreorders⟩
  rw [place, hd, Option.bind_some, hindex, Option.getD_some, hindex']

section Compiled

variable (h : s.Rearranges loose s') (hloose : .struct ∉ loose) (hc : s.compile.result = .ok c)
  (hc' : s'.compile.result = .ok c')
include h hc'

theorem reorders_of_getElem? {index : Nat} (hd : s.definitions[index]? = some d)
    (hd' : s'.definitions[s.place s' index]? = some d') : d.Reorders loose d' := by
  obtain ⟨_, hd₁, hreorders⟩ := h.exists_getElem? (compile_eq_ok_iff_valid.mp hc').1.names hd
  obtain rfl := Option.some.inj (hd₁.symm.trans hd')
  exact hreorders

include hloose

theorem within : s.Within (s.place s') s' := by
  intro index d hd
  obtain ⟨d', hd', hreorders⟩ := h.exists_getElem? (compile_eq_ok_iff_valid.mp hc').1.names hd
  exact ⟨d', hd', hreorders.within hloose⟩

include hc

theorem onto : Catalog.Onto (s.place s') c c' := by
  refine (h.within hloose hc').onto_of_compile hc hc' fun index d d' hd hd' => ?_
  exact (h.reorders_of_getElem? hc' hd hd').fields.symm.subset

/-- Where messages are not loose, their fields have kept their order. -/
theorem inOrder (hmessage : .message ∉ loose) : Catalog.InOrder (s.place s') c c' := by
  refine (h.within hloose hc').inOrder_of_compile hc hc' fun index d d' hd hd' hk => ?_
  rw [(h.reorders_of_getElem? hc' hd hd').fixed (hk ▸ hmessage)]

/-- A name stands for the same type in both, or for none in either. -/
theorem typeOf?_eq_map : c'.typeOf? name =
    (c.typeOf? name).map (TypeRef.relocate (s.place s')) := by
  cases htype : c.typeOf? name with
  | some type => exact (h.within hloose hc').typeOf?_compile hc hc' htype
  | none =>
    refine Option.eq_none_iff_forall_ne_some.mpr fun type htype' => ?_
    rw [(h.symm.within hloose hc).typeOf?_compile hc' hc htype'] at htype
    exact absurd htype (by simp)

end Compiled

end Rearranges

end WireSchema.Schema
