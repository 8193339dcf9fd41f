import Mathlib.Data.Finset.Card
import Mathlib.Data.Finset.Range
import Mathlib.Order.Monotone.Basic
import WireSchema.Catalog.Basic

/-! Types whose values take no bytes. Such a type is a struct of such types, looked at through so
many structs as there are definitions; looking through more of them finds no other types, in any
catalog at all. -/

namespace WireSchema.Catalog

variable {c : Catalog} {levels levels' : Nat} {type : TypeRef}

/-- Looking through one more struct: all its fields are of such types, and none is an array. -/
theorem zeroWidthWithin_succ_iff : c.zeroWidthWithin (levels + 1) type = true ↔
    ∃ index d, type = .definition index ∧ c.definitions[index]? = some d ∧ d.kind = .struct ∧
      ∀ f ∈ d.fields, f.isArray = false ∧ c.zeroWidthWithin levels f.type = true := by
  constructor
  · intro h
    cases type with
    | definition index =>
      rw [zeroWidthWithin] at h
      split at h
      · rename_i fields hd
        refine ⟨index, _, rfl, hd, rfl, fun f hf => ?_⟩
        simpa only [Bool.and_eq_true, Bool.not_eq_true'] using List.all_eq_true.mp h f hf
      · cases h
    | _ => cases h
  · rintro ⟨index, ⟨name, kind, fields⟩, rfl, hd, rfl, h⟩
    rw [zeroWidthWithin, hd]
    refine List.all_eq_true.mpr fun f hf => ?_
    simpa only [Bool.and_eq_true, Bool.not_eq_true'] using h f hf

theorem zeroWidthWithin_definition_iff {levels index : Nat} (hd : c.definitions[index]? = some d) :
    c.zeroWidthWithin (levels + 1) (.definition index) = true ↔
      d.kind = .struct ∧
        ∀ f ∈ d.fields, f.isArray = false ∧ c.zeroWidthWithin levels f.type = true := by
  rw [zeroWidthWithin_succ_iff]
  constructor
  · rintro ⟨_, e, ⟨⟩, he, h⟩
    obtain rfl : d = e := Option.some.inj (hd.symm.trans he)
    exact h
  · exact fun h => ⟨index, d, rfl, hd, h⟩

theorem zeroWidthWithin_succ (h : c.zeroWidthWithin levels type = true) :
    c.zeroWidthWithin (levels + 1) type = true := by
  induction levels generalizing type with
  | zero => simp [zeroWidthWithin] at h
  | succ levels ih =>
    obtain ⟨index, d, rfl, hd, hk, hfields⟩ := zeroWidthWithin_succ_iff.mp h
    refine zeroWidthWithin_succ_iff.mpr ⟨index, d, rfl, hd, hk, fun f hf => ?_⟩
    exact ⟨(hfields f hf).1, ih (hfields f hf).2⟩

theorem zeroWidthWithin_mono (hl : levels ≤ levels') (h : c.zeroWidthWithin levels type = true) :
    c.zeroWidthWithin levels' type = true := by
  induction hl with
  | refl => exact h
  | step _ ih => exact zeroWidthWithin_succ ih

/-! ### The levels that suffice -/

/-- The places of the definitions found by looking through so many structs. -/
def zeroWidthPlaces (c : Catalog) (levels : Nat) : Finset Nat :=
  (Finset.range c.definitions.length).filter fun i => c.zeroWidthWithin levels (.definition i)

theorem mem_zeroWidthPlaces {i : Nat} :
    i ∈ c.zeroWidthPlaces levels ↔ c.zeroWidthWithin levels (.definition i) = true := by
  rw [zeroWidthPlaces, Finset.mem_filter, Finset.mem_range, and_iff_right_iff_imp]
  intro h
  cases levels with
  | zero => simp [zeroWidthWithin] at h
  | succ levels =>
    obtain ⟨index, d, hi, hd, -⟩ := zeroWidthWithin_succ_iff.mp h
    rw [TypeRef.definition.inj hi]
    exact (List.getElem?_eq_some_iff.mp hd).1

theorem zeroWidthPlaces_mono : Monotone c.zeroWidthPlaces := fun _ _ hl _ hi =>
  mem_zeroWidthPlaces.mpr (zeroWidthWithin_mono hl (mem_zeroWidthPlaces.mp hi))

/-- Where one more level finds nothing new, neither does the one after it. -/
theorem zeroWidthPlaces_stable (h : c.zeroWidthPlaces levels = c.zeroWidthPlaces (levels + 1)) :
    c.zeroWidthPlaces (levels + 1) = c.zeroWidthPlaces (levels + 2) := by
  have hstep : ∀ {type : TypeRef}, c.zeroWidthWithin (levels + 1) type = true →
      c.zeroWidthWithin levels type = true := by
    intro type htype
    obtain ⟨index, _, rfl, -⟩ := zeroWidthWithin_succ_iff.mp htype
    rw [← mem_zeroWidthPlaces, h]
    exact mem_zeroWidthPlaces.mpr htype
  apply (zeroWidthPlaces_mono (Nat.le_succ _)).antisymm
  intro i hi
  obtain ⟨index, d, hindex, hd, hk, hfields⟩ :=
    zeroWidthWithin_succ_iff.mp (mem_zeroWidthPlaces.mp hi)
  refine mem_zeroWidthPlaces.mpr (zeroWidthWithin_succ_iff.mpr ⟨index, d, hindex, hd, hk, ?_⟩)
  exact fun f hf => ⟨(hfields f hf).1, hstep (hfields f hf).2⟩

/-- Looking through any number of structs finds no more than `isZeroWidth` does: each level but the
last finds a definition that the one before it did not. -/
theorem isZeroWidth_of_within (h : c.zeroWidthWithin levels type = true) :
    c.isZeroWidth type = true := by
  by_cases hl : levels ≤ c.definitions.length
  · exact zeroWidthWithin_mono (Nat.le_succ_of_le hl) h
  · have hlevels : c.definitions.length ≤ levels := by omega
    have hbound : ∀ n, (c.zeroWidthPlaces n).card ≤ c.definitions.length := fun n =>
      (Finset.card_filter_le _ _).trans_eq (Finset.card_range _)
    have hcard : (c.zeroWidthPlaces levels).card =
        (c.zeroWidthPlaces c.definitions.length).card := by
      refine Nat.stabilises_of_monotone (f := fun n => (c.zeroWidthPlaces n).card)
        (fun _ _ hn => Finset.card_le_card (zeroWidthPlaces_mono hn)) hbound
        (fun n hn => ?_) hlevels
      have := Finset.eq_of_subset_of_card_le (zeroWidthPlaces_mono (Nat.le_succ n)) hn.ge
      exact congrArg Finset.card (zeroWidthPlaces_stable this)
    have hplaces := Finset.eq_of_subset_of_card_le (zeroWidthPlaces_mono hlevels) hcard.le
    cases type with
    | definition i =>
      have hi := mem_zeroWidthPlaces.mpr h
      rw [← hplaces] at hi
      exact zeroWidthWithin_mono (Nat.le_succ _) (mem_zeroWidthPlaces.mp hi)
    | _ => cases levels <;> simp [zeroWidthWithin] at h

theorem isZeroWidth_iff_within {type : TypeRef} :
    c.isZeroWidth type = true ↔ ∃ levels, c.zeroWidthWithin levels type = true :=
  ⟨fun h => ⟨_, h⟩, fun ⟨_, h⟩ => isZeroWidth_of_within h⟩

/-- A type is of that kind exactly if it is a struct all of whose fields are, none of them an
array. -/
theorem isZeroWidth_iff : c.isZeroWidth type = true ↔
    ∃ index d, type = .definition index ∧ c.definitions[index]? = some d ∧ d.kind = .struct ∧
      ∀ f ∈ d.fields, f.isArray = false ∧ c.isZeroWidth f.type = true := by
  constructor
  · intro h
    obtain ⟨index, d, htype, hd, hk, hfields⟩ := zeroWidthWithin_succ_iff.mp h
    exact ⟨index, d, htype, hd, hk, fun f hf =>
      ⟨(hfields f hf).1, isZeroWidth_of_within (hfields f hf).2⟩⟩
  · exact fun h => isZeroWidth_of_within (zeroWidthWithin_succ_iff.mpr h)

theorem isZeroWidth_definition_iff {index : Nat} {d : Definition}
    (hd : c.definitions[index]? = some d) : c.isZeroWidth (.definition index) = true ↔
      d.kind = .struct ∧ ∀ f ∈ d.fields, f.isArray = false ∧ c.isZeroWidth f.type = true := by
  rw [isZeroWidth_iff]
  constructor
  · rintro ⟨_, e, ⟨⟩, he, h⟩
    obtain rfl : d = e := Option.some.inj (hd.symm.trans he)
    exact h
  · exact fun h => ⟨index, d, rfl, hd, h⟩

theorem not_isZeroWidth_primitive (h : ∀ index, type ≠ .definition index) :
    ¬ c.isZeroWidth type = true := fun hz => by
  obtain ⟨index, _, htype, -⟩ := isZeroWidth_iff.mp hz
  exact h index htype

end WireSchema.Catalog
