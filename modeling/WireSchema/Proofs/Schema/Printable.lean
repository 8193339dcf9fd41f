import WireSchema.Proofs.Schema.Documented
import WireSchema.Proofs.Schema.Printing

/-! Schemas that a text can say. A schema of the data model that was put together by hand need not
come from any text; it does if its names are names and its entries of enums have no mark of an
array, and then it comes from its canonical text. -/

namespace WireSchema

namespace Schema

/-- All parts of a field of a definition of some kind can stand on its line. -/
structure Field.Printable (kind : Kind) (f : Field) : Prop where
  name : Token.isName f.name = true
  typeName : ∀ name ∈ f.typeName, Token.isName name = true
  isArray : kind = .enum → f.isArray = false

structure Definition.Printable (d : Definition) : Prop where
  name : Token.isName d.name = true
  fields : ∀ f ∈ d.fields, f.Printable d.kind

/-- A schema without a package whose definitions can be printed. -/
structure Printable (s : Schema) : Prop where
  package : s.package = none
  definitions : ∀ d ∈ s.definitions, d.Printable

instance (kind : Kind) (f : Field) : Decidable (f.Printable kind) :=
  decidable_of_iff (Token.isName f.name = true ∧ (∀ name ∈ f.typeName, Token.isName name = true) ∧
      (kind = .enum → f.isArray = false))
    ⟨fun ⟨hname, htype, harray⟩ => ⟨hname, htype, harray⟩, fun h => ⟨h.name, h.typeName, h.isArray⟩⟩

instance (d : Definition) : Decidable d.Printable :=
  decidable_of_iff (Token.isName d.name = true ∧ ∀ f ∈ d.fields, f.Printable d.kind)
    ⟨fun ⟨hname, hfields⟩ => ⟨hname, hfields⟩, fun h => ⟨h.name, h.fields⟩⟩

instance (s : Schema) : Decidable s.Printable :=
  decidable_of_iff (s.package = none ∧ ∀ d ∈ s.definitions, d.Printable)
    ⟨fun ⟨hpackage, hdefinitions⟩ => ⟨hpackage, hdefinitions⟩, fun h => ⟨h.package, h.definitions⟩⟩

end Schema

namespace Grammar

theorem exists_sequence {α : Type} {item : Nat → α → List Token → Prop} {place : Nat} {as : List α}
    (h : ∀ p ∈ as.zipIdx place, ∃ ts, item p.2 p.1 ts) : ∃ ts, Sequence item place as ts := by
  induction as generalizing place with
  | nil => exact ⟨[], .nil⟩
  | cons a as ih =>
    rw [List.zipIdx_cons, List.forall_mem_cons] at h
    obtain ⟨⟨ts, ha⟩, has⟩ := h
    obtain ⟨us, has⟩ := ih has
    exact ⟨ts ++ us, .cons ha has⟩

theorem exists_fieldType {type : String} (htype : Token.isName type = true) (isArray : Bool) :
    ∃ ts, FieldType type isArray ts := by
  cases isArray with
  | false => exact ⟨_, @FieldType.one ⟨type, .none⟩ htype⟩
  | true => exact ⟨_, @FieldType.many ⟨type, .none⟩ ⟨"[", .none⟩ ⟨"]", .none⟩ htype rfl rfl⟩

theorem exists_deprecation (isDeprecated : Bool) : ∃ ts, Deprecation isDeprecated ts := by
  cases isDeprecated with
  | false => exact ⟨_, .absent⟩
  | true =>
    exact ⟨_, @Deprecation.present ⟨"[", .none⟩ ⟨"deprecated", .none⟩ ⟨"]", .none⟩ rfl rfl rfl⟩

theorem exists_field {kind : Kind} {place : Nat} {f : Schema.Field} (hf : f.Documented kind place)
    (h : f.Printable kind) : ∃ ts, Field kind place f ts := by
  obtain ⟨name, position, typeName, isArray, isDeprecated, value⟩ := f
  have hinteger : Integer ⟨toString value.toInt, .none⟩ value := integer_of_text_eq rfl
  by_cases hkind : kind = .enum
  · subst hkind
    obtain rfl : typeName = none := by simpa using hf.typeName
    obtain rfl : isArray = false := h.isArray rfl
    obtain rfl : isDeprecated = false := by simpa using hf.deprecated
    exact ⟨_, @Field.entry place ⟨name, position⟩ ⟨"=", .none⟩ _ ⟨";", .none⟩ value h.name rfl
      hinteger rfl⟩
  · obtain ⟨type, rfl⟩ := Option.isSome_iff_exists.mp (hf.typeName.mpr hkind)
    obtain ⟨types, htype⟩ := exists_fieldType (h.typeName type rfl) isArray
    cases kind with
    | enum => exact absurd rfl hkind
    | struct =>
      obtain rfl : isDeprecated = false := by simpa using hf.deprecated
      obtain rfl := hf.value rfl
      exact ⟨_, @Field.struct place _ _ _ ⟨name, position⟩ ⟨";", .none⟩ htype h.name rfl⟩
    | message =>
      obtain ⟨marks, hmark⟩ := exists_deprecation isDeprecated
      exact ⟨_, @Field.message place _ _ _ _ _ ⟨name, position⟩ ⟨"=", .none⟩ _ ⟨";", .none⟩ value
        htype h.name rfl hinteger hmark rfl⟩

theorem exists_definition {d : Schema.Definition} (hd : d.Documented) (h : d.Printable) :
    ∃ ts, Definition d ts := by
  obtain ⟨ts, hfields⟩ : ∃ ts, Sequence (Field d.kind) 0 d.fields ts := exists_sequence fun p hp =>
    exists_field (hd.fields p hp)
      (h.fields p.1 (List.mem_of_getElem? (List.mem_zipIdx_iff_getElem?.mp hp)))
  exact ⟨_, @Definition.mk d.kind ⟨d.kind.keyword, .none⟩ ⟨d.name, d.position⟩ ⟨"\x7b", .none⟩
    ⟨"\x7d", .none⟩ d.fields ts rfl h.name rfl hfields rfl⟩

/-! ### What can be spelled can be printed -/

theorem FieldType.isName {type : String} {isArray : Bool} {ts : List Token}
    (h : FieldType type isArray ts) : Token.isName type = true := by
  cases h with
  | one htype | many htype => exact htype

theorem Field.printable {kind : Kind} {place : Nat} {f : Schema.Field} {ts : List Token}
    (h : Field kind place f ts) : f.Printable kind := by
  cases h with
  | entry hname => exact ⟨hname, by simp, fun _ => rfl⟩
  | struct htype hname | message htype hname => exact ⟨hname, by simpa using htype.isName, by simp⟩

theorem Definition.printable {d : Schema.Definition} {ts : List Token} (h : Definition d ts) :
    d.Printable := by
  cases h with
  | mk hkeyword hname hleft hfields => exact ⟨hname, hfields.forall_mem Field.printable⟩

end Grammar

theorem Schema.printable_of_parse {text : String} {s : Schema} (h : parse text = .ok s) :
    ∀ d ∈ s.definitions, d.Printable := by
  obtain ⟨ts, hgrammar⟩ := grammar_of_parse h
  cases hgrammar with
  | mk hpackage hdefinitions => exact hdefinitions.forall_mem Grammar.Definition.printable

/-- A schema of the data model that can be printed is read back from its canonical text, but for its
places. -/
theorem Schema.exists_parse_print {s : Schema} (hs : s.Documented) (h : s.Printable) :
    ∃ s', parse s.print = .ok s' ∧ s'.withoutPositions = s.withoutPositions := by
  obtain ⟨package, ds⟩ := s
  obtain rfl : package = none := h.package
  obtain ⟨ts, hdefinitions⟩ : ∃ ts, Grammar.Sequence (fun _ => Grammar.Definition) 0 ds ts :=
    Grammar.exists_sequence fun p hp =>
      have hmem := List.mem_of_getElem? (List.mem_zipIdx_iff_getElem?.mp hp)
      Grammar.exists_definition (hs p.1 hmem) (h.definitions p.1 hmem)
  have hgrammar : Grammar ⟨none, ds⟩ ([] ++ ts) := .mk .none hdefinitions
  obtain ⟨body, q, ⟨s', hgrammar', hbare⟩, hends, hscan⟩ :=
    hgrammar.scans [] .first (by simp [Token.Breaks])
  rw [List.append_nil] at hscan
  have htokens : Token.scan (Schema.print ⟨none, ds⟩) = .ok (body ++ [⟨"", q⟩]) := hscan
  refine ⟨s', ?_, hbare⟩
  rw [parse, htokens]
  exact (ofTokens_eq_ok_iff hends rfl).mpr hgrammar'

end WireSchema
