import WireSchema.Proofs.Schema.Valid

/-! What the checks of a schema report. A problem with a name is reported of a definition, and a
problem with a field of a field, each by its name and at its place. A struct that is reported to
nest recursively does so itself: it is not one that only leads to others that do. -/

namespace WireSchema.Schema

/-- The definition that a flaw of names is a flaw of. -/
def Flaw.definition? : Flaw → Option String
  | reservedName name | repeatedDefinition name => some name
  | _ => none

/-- The field that a flaw of a definition is a flaw of. -/
def Flaw.field? : Flaw → Option String
  | repeatedField field _ | repeatedValue field | unknownFieldType _ field
  | notPositive field | repeatedId field => some field
  | _ => none

variable {s : Schema} {d : Definition} {e : ValidityError} {name : String}

/-! ### The checks before containment -/

theorem of_checkNames_eq_error {seen : List String} {ds : List Definition}
    (h : checkNames seen ds = .error e) :
    ∃ d ∈ ds, e.flaw.definition? = some d.name ∧ e.position = d.position := by
  induction ds generalizing seen with
  | nil => cases h
  | cons d ds ih =>
    rw [checkNames] at h
    split at h
    · obtain rfl := Except.error.inj h
      exact ⟨d, List.mem_cons_self, rfl, rfl⟩
    · split at h
      · obtain rfl := Except.error.inj h
        exact ⟨d, List.mem_cons_self, rfl, rfl⟩
      · obtain ⟨d', hd', he⟩ := ih h
        exact ⟨d', List.mem_cons_of_mem d hd', he⟩

theorem Definition.of_checkFieldNames_eq_error (h : d.checkFieldNames = .error e) :
    ∃ f ∈ d.fields, e.flaw.field? = some f.name ∧ e.position = f.position := by
  rw [checkFieldNames] at h
  split at h
  · rename_i f hf
    obtain rfl := Except.error.inj h
    exact ⟨f, mem_of_firstRepeat? hf, rfl, rfl⟩
  · cases h

theorem Definition.of_checkValues_eq_error (h : d.checkValues = .error e) :
    ∃ f ∈ d.fields, e.flaw.field? = some f.name ∧ e.position = f.position := by
  rw [checkValues] at h
  split at h
  · rename_i f hf
    obtain rfl := Except.error.inj h
    exact ⟨f, mem_of_firstRepeat? hf, rfl, rfl⟩
  · cases h

theorem of_checkTypes_eq_error (h : s.checkTypes d = .error e) :
    ∃ f ∈ d.fields, e.flaw.field? = some f.name ∧ e.position = f.position := by
  rw [checkTypes] at h
  split at h
  · rename_i f hf
    obtain rfl := Except.error.inj h
    exact ⟨f, List.mem_of_find?_eq_some hf, rfl, rfl⟩
  · cases h

theorem of_checkIds_eq_error {seen : List Int32} {fs : List Field}
    (h : checkIds seen fs = .error e) :
    ∃ f ∈ fs, e.flaw.field? = some f.name ∧ e.position = f.position := by
  induction fs generalizing seen with
  | nil => cases h
  | cons f fs ih =>
    rw [checkIds] at h
    split at h
    · obtain rfl := Except.error.inj h
      exact ⟨f, List.mem_cons_self, rfl, rfl⟩
    · split at h
      · obtain rfl := Except.error.inj h
        exact ⟨f, List.mem_cons_self, rfl, rfl⟩
      · obtain ⟨f', hf', he⟩ := ih h
        exact ⟨f', List.mem_cons_of_mem f hf', he⟩

/-- A problem with a definition is a problem with one of its fields. -/
theorem of_checkDefinition_eq_error (h : s.checkDefinition d = .error e) :
    ∃ f ∈ d.fields, e.flaw.field? = some f.name ∧ e.position = f.position := by
  rcases Except.bind_eq_error.mp h with hnames | ⟨-, -, h⟩
  · exact Definition.of_checkFieldNames_eq_error hnames
  · cases hkind : d.kind with
    | enum =>
      rw [hkind] at h
      exact Definition.of_checkValues_eq_error h
    | struct =>
      rw [hkind] at h
      exact of_checkTypes_eq_error h
    | message =>
      rw [hkind] at h
      rcases Except.bind_eq_error.mp h with htypes | ⟨-, -, hids⟩
      · exact of_checkTypes_eq_error htypes
      · exact of_checkIds_eq_error hids

/-! ### Containment -/

/-- A problem with containment is a struct, at its place, that contains itself. -/
theorem of_checkContainment_eq_error (h : s.checkContainment = .error e) :
    ∃ d, s.struct? d.name = some d ∧ e = ⟨.recursive d.name, d.position⟩ ∧
      Relation.TransGen s.Contains d.name d.name := by
  obtain ⟨answer, hwalk, -⟩ := s.existsUnique_walks [] [] (s.definitions.map (·.name))
  rw [hwalk.checkContainment_eq] at h
  cases answer with
  | ok cleared => cases h
  | error e' =>
    obtain rfl := Except.error.inj h
    obtain ⟨name, d, rfl, hd, hcycle⟩ := hwalk.recursive (by simp) rfl
    obtain ⟨-, rfl, -⟩ := struct?_eq_some hd
    exact ⟨d, hd, rfl, hcycle⟩

/-- A struct that nests recursively is reported after all other checks were passed. -/
theorem checkContainment_of_recursive (h : s.check = .error e) (hflaw : e.flaw = .recursive name) :
    (s.definitions.map (·.name)).Nodup ∧ s.checkContainment = .error e := by
  rcases Except.bind_eq_error.mp h with hnames | ⟨_, hnames, h⟩
  · obtain ⟨d, -, hd, -⟩ := of_checkNames_eq_error hnames
    rw [hflaw] at hd
    cases hd
  rcases Except.bind_eq_error.mp h with hdefinitions | ⟨-, -, hcontainment⟩
  · obtain ⟨d, -, hd⟩ := Except.exists_of_forM_eq_error hdefinitions
    obtain ⟨f, -, hf, -⟩ := of_checkDefinition_eq_error hd
    rw [hflaw] at hf
    cases hf
  · exact ⟨(checkNames_eq_ok_iff.mp hnames).2, hcontainment⟩

open Text in
/-- Where the checks report that a struct nests recursively, there is one definition of its name, a
struct, which stands at the place of the report; and that struct reaches itself, from struct to
struct, along fields that are no arrays. -/
theorem embeds_of_check {position : Position} (h : s.check = .error ⟨.recursive name, position⟩) :
    (∃ d ∈ s.definitions, d.name = name ∧ d.kind = .struct ∧ d.position = position ∧
      ∀ d' ∈ s.definitions, d'.name = name → d' = d) ∧
    Relation.TransGen s.Embeds name name ∧
    ValidityError.message ⟨.recursive name, position⟩ =
      s!"Recursive nesting of {quoteJson name} is not allowed" ++ position.suffix := by
  obtain ⟨hnames, hcontainment⟩ := checkContainment_of_recursive h rfl
  obtain ⟨d, hd, he, hcycle⟩ := of_checkContainment_eq_error hcontainment
  obtain ⟨hname, rfl⟩ := ValidityError.mk.inj he
  obtain rfl := Flaw.recursive.inj hname
  obtain ⟨hmem, -, hkind⟩ := struct?_eq_some hd
  refine ⟨⟨d, hmem, rfl, hkind, rfl,
      fun d' hd' hname => List.inj_on_of_nodup_map hnames hd' hmem hname⟩,
    (transGen_embeds_iff hnames).mpr ⟨hcycle, d, hmem, hkind, rfl⟩, rfl⟩

/-- The walk begins at a struct that only leads to two which contain each other; of these, the one
that it comes to first is reported. -/
theorem embeds_of_check_outside :
    let s : Schema := ⟨none, [
      ⟨"Outer", ⟨1, 8⟩, .struct, [⟨"list", ⟨2, 10⟩, some "Tree", true, false, 1⟩,
        ⟨"tree", ⟨3, 8⟩, some "Tree", false, false, 2⟩]⟩,
      ⟨"Leaf", ⟨5, 8⟩, .struct, [⟨"tree", ⟨6, 8⟩, some "Tree", false, false, 1⟩]⟩,
      ⟨"Tree", ⟨8, 8⟩, .struct, [⟨"outer", ⟨9, 11⟩, some "Outer", true, false, 1⟩,
        ⟨"leaf", ⟨10, 8⟩, some "Leaf", false, false, 2⟩]⟩]⟩
    s.check = .error ⟨.recursive "Tree", ⟨8, 8⟩⟩ ∧ Relation.TransGen s.Embeds "Tree" "Tree" ∧
      ¬ Relation.TransGen s.Embeds "Outer" "Outer" := by
  intro s
  have h : s.check = .error ⟨.recursive "Tree", ⟨8, 8⟩⟩ := by decide
  have houter : ∀ d ∈ s.definitions, ∀ f ∈ d.fields, f.isArray = false →
      f.typeName ≠ some "Outer" := by decide
  refine ⟨h, (embeds_of_check h).2.1, fun hcycle => ?_⟩
  obtain ⟨b, -, d, hd, -, -, ⟨f, hf, harray, htype⟩, -⟩ := Relation.TransGen.tail'_iff.mp hcycle
  exact houter d hd f hf harray htype

end WireSchema.Schema
