import WireSchema.Proofs.Except
import WireSchema.Proofs.Table
import WireSchema.Schema.Validity

/-! What the checks of a schema find, one by one: names are free and differ, values and ids differ,
ids are positive, types exist. -/

namespace WireSchema.Schema

theorem checkNames_eq_ok_iff {seen : List String} {ds : List Definition} :
    checkNames seen ds = .ok () ↔ (∀ d ∈ ds, isReserved d.name = false ∧ d.name ∉ seen) ∧
      (ds.map (·.name)).Nodup := by
  induction ds generalizing seen with
  | nil => simp [checkNames]
  | cons d ds ih =>
    rw [checkNames]
    by_cases hres : isReserved d.name = true
    · simp [hres]
    · by_cases hseen : d.name ∈ seen
      · simp [hres, hseen]
      · rw [if_neg hres, if_neg (by simpa using hseen), ih, List.map_cons, List.nodup_cons,
          List.forall_mem_cons]
        simp only [List.mem_cons, not_or, List.mem_map, not_exists, not_and]
        constructor
        · rintro ⟨hall, hnodup⟩
          exact ⟨⟨⟨by simpa using hres, hseen⟩, fun d' hd' => ⟨(hall d' hd').1, (hall d' hd').2.2⟩⟩,
            fun d' hd' => (hall d' hd').2.1, hnodup⟩
        · rintro ⟨⟨-, hall⟩, hne, hnodup⟩
          exact ⟨fun d' hd' => ⟨(hall d' hd').1, hne d' hd', (hall d' hd').2⟩, hnodup⟩

namespace Definition

variable {d : Definition}

theorem checkFieldNames_eq_ok_iff : d.checkFieldNames = .ok () ↔ (d.fields.map (·.name)).Nodup := by
  have h : firstRepeat? Field.name [] d.fields = none ↔ _ := firstRepeat?_eq_none_iff
  rw [checkFieldNames]
  cases hr : firstRepeat? Field.name [] d.fields <;> simp_all

theorem checkValues_eq_ok_iff : d.checkValues = .ok () ↔ (d.fields.map (·.value)).Nodup := by
  have h : firstRepeat? Field.value [] d.fields = none ↔ _ := firstRepeat?_eq_none_iff
  rw [checkValues]
  cases hr : firstRepeat? Field.value [] d.fields <;> simp_all

end Definition

theorem checkTypes_eq_ok_iff {s : Schema} {d : Definition} : s.checkTypes d = .ok () ↔
    ∀ f ∈ d.fields, ∃ name, f.typeName = some name ∧ (s.typeOf? name).isSome := by
  rw [checkTypes]
  cases hf : d.fields.find? (fun f => !f.typeName.any fun name => (s.typeOf? name).isSome) with
  | none =>
    simp only [List.find?_eq_none, Bool.not_eq_true', Bool.not_eq_false, Option.any_eq_true] at hf
    simpa using hf
  | some f =>
    have hmem := List.mem_of_find?_eq_some hf
    have hp := List.find?_some hf
    simp only [reduceCtorEq, false_iff, not_forall]
    refine ⟨f, hmem, ?_⟩
    rintro ⟨name, hname, hsome⟩
    simp [hname, hsome] at hp

theorem checkIds_eq_ok_iff {seen : List Int32} {fs : List Field} :
    checkIds seen fs = .ok () ↔ (∀ f ∈ fs, 0 < f.value.toInt ∧ f.value ∉ seen) ∧
      (fs.map (·.value)).Nodup := by
  induction fs generalizing seen with
  | nil => simp [checkIds]
  | cons f fs ih =>
    rw [checkIds]
    by_cases hpos : f.value.toInt ≤ 0
    · simp [hpos, Int.not_lt.mpr hpos]
    · by_cases hseen : f.value ∈ seen
      · simp [hpos, hseen]
      · rw [if_neg hpos, if_neg (by simpa using hseen), ih, List.map_cons, List.nodup_cons,
          List.forall_mem_cons]
        simp only [List.mem_cons, not_or, List.mem_map, not_exists, not_and]
        constructor
        · rintro ⟨hall, hnodup⟩
          exact ⟨⟨⟨by omega, hseen⟩, fun f' hf' => ⟨(hall f' hf').1, (hall f' hf').2.2⟩⟩,
            fun f' hf' => (hall f' hf').2.1, hnodup⟩
        · rintro ⟨⟨-, hall⟩, hne, hnodup⟩
          exact ⟨fun f' hf' => ⟨(hall f' hf').1, hne f' hf', (hall f' hf').2⟩, hnodup⟩

theorem checkDefinition_eq_ok_iff {s : Schema} {d : Definition} : s.checkDefinition d = .ok () ↔
    (d.fields.map (·.name)).Nodup ∧ match d.kind with
      | .enum => (d.fields.map (·.value)).Nodup
      | .struct => s.checkTypes d = .ok ()
      | .message => s.checkTypes d = .ok () ∧ (∀ f ∈ d.fields, 0 < f.value.toInt) ∧
          (d.fields.map (·.value)).Nodup := by
  rw [checkDefinition, Except.bind_unit_eq_ok, Definition.checkFieldNames_eq_ok_iff]
  cases d.kind with
  | enum => simp only [Definition.checkValues_eq_ok_iff]
  | struct => exact Iff.rfl
  | message =>
    simp only [Except.bind_unit_eq_ok, checkIds_eq_ok_iff, List.not_mem_nil,
      not_false_eq_true, and_true]

theorem check_eq_ok_iff {s : Schema} : s.check = .ok () ↔ checkNames [] s.definitions = .ok () ∧
    (∀ d ∈ s.definitions, s.checkDefinition d = .ok ()) ∧ s.checkContainment = .ok () := by
  rw [check, Except.bind_unit_eq_ok, Except.bind_unit_eq_ok, Except.forM_eq_ok]

end WireSchema.Schema
