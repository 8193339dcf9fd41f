import Mathlib.Data.List.Perm.Basic
import WireSchema.Proofs.Schema.Valid

/-! Schemas that say the same in another order: of the definitions, and of the fields of definitions
of some kinds. The one is valid if the other is, since what makes a schema valid knows no order. -/

namespace WireSchema.Schema

variable {loose : List Kind} {s s' : Schema} {d d' : Definition} {f : Field} {a b name : String}

/-- The same definition, with its fields in another order if it is of a loose kind. -/
structure Definition.Reorders (loose : List Kind) (d d' : Definition) : Prop where
  name : d'.name = d.name
  kind : d'.kind = d.kind
  fields : d.fields.Perm d'.fields
  fixed : d.kind ∉ loose → d'.fields = d.fields

/-- The same definitions in another order, each with its fields in another order if it is of a loose
kind. -/
def Rearranges (loose : List Kind) (s s' : Schema) : Prop :=
  ∃ ds, List.Forall₂ (Definition.Reorders loose) s.definitions ds ∧ ds.Perm s'.definitions

theorem Definition.Reorders.symm (h : d.Reorders loose d') : d'.Reorders loose d where
  name := h.name.symm
  kind := h.kind.symm
  fields := h.fields.symm
  fixed hk := (h.fixed (h.kind ▸ hk)).symm

namespace Rearranges

theorem symm (h : s.Rearranges loose s') : s'.Rearranges loose s := by
  obtain ⟨ds, hall, hperm⟩ := h
  have hflip : List.Forall₂ (Definition.Reorders loose) ds s.definitions :=
    hall.flip.imp fun _ _ hd => hd.symm
  exact List.perm_comp_forall₂ hperm.symm hflip

/-- Every definition has its counterpart. -/
theorem exists_mem (h : s.Rearranges loose s') (hd : d ∈ s.definitions) :
    ∃ d' ∈ s'.definitions, d.Reorders loose d' := by
  obtain ⟨ds, hall, hperm⟩ := h
  obtain ⟨index, hindex, rfl⟩ := List.mem_iff_getElem.mp hd
  obtain ⟨hlength, hget⟩ := List.forall₂_iff_get.mp hall
  exact ⟨_, hperm.subset (List.getElem_mem _), hget index hindex (hlength ▸ hindex)⟩

theorem names_perm (h : s.Rearranges loose s') :
    (s.definitions.map (·.name)).Perm (s'.definitions.map (·.name)) := by
  obtain ⟨ds, hall, hperm⟩ := h
  have hnames : List.Forall₂ Eq (ds.map (·.name)) (s.definitions.map (·.name)) :=
    List.forall₂_map_left_iff.mpr
      (List.forall₂_map_right_iff.mpr (hall.flip.imp fun _ _ hd => hd.name))
  rw [List.forall₂_eq_eq_eq] at hnames
  rw [← hnames]
  exact hperm.map _

theorem exists_name (h : s.Rearranges loose s') (hname : ∃ d ∈ s.definitions, d.name = name) :
    ∃ d ∈ s'.definitions, d.name = name := by
  obtain ⟨d, hd, rfl⟩ := hname
  exact (h.exists_mem hd).imp fun _ hd' => ⟨hd'.1, hd'.2.name⟩

theorem embeds (h : s.Rearranges loose s') (hab : s.Embeds a b) : s'.Embeds a b := by
  obtain ⟨d, hd, hk, rfl, ⟨f, hf, hfield⟩, e, he, hek, rfl⟩ := hab
  obtain ⟨d', hd', hreorders⟩ := h.exists_mem hd
  obtain ⟨e', he', hreorders'⟩ := h.exists_mem he
  exact ⟨d', hd', hreorders.kind.trans hk, hreorders.name,
    ⟨f, hreorders.fields.subset hf, hfield⟩, e', he', hreorders'.kind.trans hek, hreorders'.name⟩

theorem valid (h : s.Rearranges loose s') (hs : s.Valid) : s'.Valid where
  free d' hd' := by
    obtain ⟨d, hd, hreorders⟩ := h.symm.exists_mem hd'
    rw [← hreorders.name]
    exact hs.free d hd
  names := h.names_perm.nodup_iff.mp hs.names
  fieldNames d' hd' := by
    obtain ⟨d, hd, hreorders⟩ := h.symm.exists_mem hd'
    exact (hreorders.fields.map _).nodup_iff.mpr (hs.fieldNames d hd)
  values d' hd' hk := by
    obtain ⟨d, hd, hreorders⟩ := h.symm.exists_mem hd'
    exact (hreorders.fields.map _).nodup_iff.mpr (hs.values d hd (hreorders.kind.trans hk))
  types d' hd' hk f hf := by
    obtain ⟨d, hd, hreorders⟩ := h.symm.exists_mem hd'
    have htype := hs.types d hd (hreorders.kind ▸ hk) f (hreorders.fields.subset hf)
    exact htype.imp fun name hname => ⟨hname.1, hname.2.imp_right h.exists_name⟩
  ids d' hd' hk := by
    obtain ⟨d, hd, hreorders⟩ := h.symm.exists_mem hd'
    obtain ⟨hpositive, hnodup⟩ := hs.ids d hd (hreorders.kind.trans hk)
    exact ⟨fun f hf => hpositive f (hreorders.fields.subset hf),
      (hreorders.fields.map _).nodup_iff.mpr hnodup⟩
  -- a circle in the one schema is a circle in the other
  acyclic name hcycle :=
    hs.acyclic name (Relation.TransGen.mono (fun _ _ => h.symm.embeds) name name hcycle)

theorem isSome_typeOf? (h : s.Rearranges loose s') (hname : (s.typeOf? name).isSome = true) :
    (s'.typeOf? name).isSome = true :=
  isSome_typeOf?_iff.mpr ((isSome_typeOf?_iff.mp hname).imp_right h.exists_name)

end Rearranges

end WireSchema.Schema
