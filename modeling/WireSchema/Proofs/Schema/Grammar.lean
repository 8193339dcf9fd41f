import WireSchema.Proofs.Schema.Parsing

/-! The grammar of schemas: which tokens spell a type, a field, a definition, a schema. Each step of
parsing answers what the tokens that it passes spell, and the parser as a whole accepts the tokens
of the grammar and no others. A field begins with a name and ends with a semicolon, a definition
begins with the word of its kind and ends with a brace, so that one token is enough to see where a
sequence of them ends. -/

namespace WireSchema

open Schema

namespace Grammar

/-- A type by its name, and whether it is an array. -/
inductive FieldType : String → Bool → List Token → Prop
  | one {type : Token} (htype : Token.isName type.text = true) : FieldType type.text false [type]
  | many {type left right : Token} (htype : Token.isName type.text = true)
      (hleft : left.text = "[") (hright : right.text = "]") :
      FieldType type.text true [type, left, right]

/-- The mark of a deprecated field. -/
inductive Deprecation : Bool → List Token → Prop
  | absent : Deprecation false []
  | present {left word right : Token} (hleft : left.text = "[") (hword : word.text = "deprecated")
      (hright : right.text = "]") : Deprecation true [left, word, right]

/-- An integer that fits 32 bits. -/
def Integer (t : Token) (n : Int32) : Prop :=
  Token.isInteger t.text = true ∧ Token.int32? t.text = some n

/-- A field of a definition of some kind at some place. -/
inductive Field : Kind → Nat → Schema.Field → List Token → Prop
  | entry {place : Nat} {name equals integer semicolon : Token} {value : Int32}
      (hname : Token.isName name.text = true) (hequals : equals.text = "=")
      (hinteger : Integer integer value) (hsemicolon : semicolon.text = ";") :
      Field .enum place ⟨name.text, name.position, none, false, false, value⟩
        [name, equals, integer, semicolon]
  | struct {place : Nat} {type : String} {isArray : Bool} {types : List Token}
      {name semicolon : Token} (htype : FieldType type isArray types)
      (hname : Token.isName name.text = true) (hsemicolon : semicolon.text = ";") :
      Field .struct place ⟨name.text, name.position, some type, isArray, false,
          Int32.ofInt (place + 1)⟩
        (types ++ [name, semicolon])
  | message {place : Nat} {type : String} {isArray isDeprecated : Bool} {types marks : List Token}
      {name equals integer semicolon : Token} {value : Int32} (htype : FieldType type isArray types)
      (hname : Token.isName name.text = true) (hequals : equals.text = "=")
      (hinteger : Integer integer value) (hmark : Deprecation isDeprecated marks)
      (hsemicolon : semicolon.text = ";") :
      Field .message place ⟨name.text, name.position, some type, isArray, isDeprecated, value⟩
        (types ++ name :: equals :: integer :: (marks ++ [semicolon]))

/-- Items one after the other, each at its place, counted from the first one's. -/
inductive Sequence {α : Type} (item : Nat → α → List Token → Prop) :
    Nat → List α → List Token → Prop
  | nil {place : Nat} : Sequence item place [] []
  | cons {place : Nat} {a : α} {as : List α} {ts us : List Token} (hitem : item place a ts)
      (hrest : Sequence item (place + 1) as us) : Sequence item place (a :: as) (ts ++ us)

inductive Definition : Schema.Definition → List Token → Prop
  | mk {kind : Kind} {keyword name left right : Token} {fields : List Schema.Field}
      {ts : List Token} (hkeyword : keyword.text = kind.keyword)
      (hname : Token.isName name.text = true) (hleft : left.text = "\x7b")
      (hfields : Sequence (Field kind) 0 fields ts) (hright : right.text = "\x7d") :
      Definition ⟨name.text, name.position, kind, fields⟩
        (keyword :: name :: left :: (ts ++ [right]))

/-- A further part of a dotted name. -/
inductive Part : String → List Token → Prop
  | mk {dot name : Token} (hdot : dot.text = ".") (hname : Token.isName name.text = true) :
      Part name.text [dot, name]

inductive Package : Option String → List Token → Prop
  | none : Package none []
  | some {keyword first semicolon : Token} {parts : List String} {ts : List Token}
      (hkeyword : keyword.text = "package") (hfirst : Token.isName first.text = true)
      (hparts : Sequence (fun _ => Part) 0 parts ts) (hsemicolon : semicolon.text = ";") :
      Package (some (".".intercalate (first.text :: parts)))
        (keyword :: first :: (ts ++ [semicolon]))

/-- What holds of every item that can be spelled holds of the items of a sequence at their
places. -/
theorem Sequence.forall_mem_zipIdx {α : Type} {item : Nat → α → List Token → Prop}
    {p : Nat → α → Prop} {place : Nat} {as : List α} {ts : List Token}
    (h : Sequence item place as ts) (hitem : ∀ {place a ts}, item place a ts → p place a) :
    ∀ x ∈ as.zipIdx place, p x.2 x.1 := by
  induction h with
  | nil => simp
  | cons ha hrest ih =>
    rw [List.zipIdx_cons, List.forall_mem_cons]
    exact ⟨hitem ha, ih⟩

theorem Sequence.forall_mem {α : Type} {item : Nat → α → List Token → Prop} {p : α → Prop}
    {place : Nat} {as : List α} {ts : List Token} (h : Sequence item place as ts)
    (hitem : ∀ {place a ts}, item place a ts → p a) : ∀ a ∈ as, p a := by
  induction h with
  | nil => simp
  | cons ha hrest ih => exact List.forall_mem_cons.mpr ⟨hitem ha, ih⟩

theorem Field.exists_name {kind : Kind} {place : Nat} {f : Schema.Field} {ts : List Token}
    (h : Field kind place f ts) : ∃ t ts', ts = t :: ts' ∧ Token.isName t.text = true := by
  cases h with
  | entry hname => exact ⟨_, _, rfl, hname⟩
  | struct htype => cases htype <;> exact ⟨_, _, rfl, ‹_›⟩
  | message htype => cases htype <;> exact ⟨_, _, rfl, ‹_›⟩

theorem Definition.exists_keyword {d : Schema.Definition} {ts : List Token}
    (h : Definition d ts) : ∃ t ts', ts = t :: ts' ∧ t.text = d.kind.keyword := by
  cases h with
  | mk hkeyword => exact ⟨_, _, rfl, hkeyword⟩

/-- No tokens spell no definitions, and nothing else. -/
theorem sequence_definition_nil_iff {place : Nat} {ds : List Schema.Definition} :
    Sequence (fun _ => Definition) place ds [] ↔ ds = [] := by
  constructor
  · generalize hts : ([] : List Token) = ts
    intro h
    cases h with
    | nil => rfl
    | cons hitem =>
      obtain ⟨t, us, rfl, -⟩ := hitem.exists_keyword
      cases hts
  · rintro rfl
    exact .nil

end Grammar

/-- The tokens of a schema, without the end of the text. -/
inductive Grammar : Schema → List Token → Prop
  | mk {package : Option String} {definitions : List Schema.Definition} {ts us : List Token}
      (hpackage : Grammar.Package package ts)
      (hdefinitions : Grammar.Sequence (fun _ => Grammar.Definition) 0 definitions us) :
      Grammar ⟨package, definitions⟩ (ts ++ us)

theorem Token.ne_of_isName {a b : String} (ha : isName a = true) (hb : isName b = false) :
    a ≠ b := by
  rintro rfl
  rw [ha] at hb
  cases hb

namespace Parser

open Grammar (FieldType Deprecation Integer Sequence)

variable {stop : Position} {ts ts' : List Token}

/-! ### Fields -/

/-- A type alone is told from an array by the token after it. -/
theorem parses_fieldType_bind {α : Type} {f : String × Bool → Parser α} {a : α} :
    Parses (fieldType stop >>= f) ts a ts' ↔ ∃ type isArray us us', ts = us ++ us' ∧
      FieldType type isArray us ∧ (isArray = false → ∀ t ∈ us'.head?, t.text ≠ "[") ∧
        Parses (f (type, isArray)) us' a ts' := by
  rw [parses_bind]
  constructor
  · rintro ⟨⟨type, isArray⟩, us', htype, h⟩
    obtain ⟨type, us, rfl, hname, htype⟩ := parses_expect_bind.mp htype
    rcases parses_eat_bind.mp htype with ⟨left, us, rfl, hleft, htype⟩ | ⟨hnot, htype⟩
    · obtain ⟨right, us, rfl, hright, htype⟩ := parses_expect_bind.mp htype
      obtain ⟨⟨⟩, rfl⟩ := parses_pure.mp htype
      exact ⟨_, _, _, _, rfl, .many hname hleft (eq_of_beq hright), nofun, h⟩
    · obtain ⟨⟨⟩, rfl⟩ := parses_pure.mp htype
      exact ⟨_, _, _, _, rfl, .one hname, fun _ => hnot, h⟩
  · rintro ⟨type, isArray, us, us', rfl, htype, hnot, h⟩
    refine ⟨(type, isArray), us', ?_, h⟩
    cases htype with
    | one hname =>
      refine parses_expect_bind.mpr ⟨_, us', rfl, hname, parses_eat_bind.mpr (.inr ⟨hnot rfl, ?_⟩)⟩
      exact parses_pure.mpr ⟨rfl, rfl⟩
    | @many type left right hname hleft hright =>
      refine parses_expect_bind.mpr ⟨_, _, rfl, hname,
        parses_eat_bind.mpr (.inl ⟨left, right :: us', rfl, hleft, ?_⟩)⟩
      refine parses_expect_bind.mpr ⟨right, us', rfl, beq_iff_eq.mpr hright, ?_⟩
      exact parses_pure.mpr ⟨rfl, rfl⟩

theorem parses_enumEntry {f : Schema.Field} {place : Nat} : Parses (enumEntry stop) ts f ts' ↔
    ∃ us, Grammar.Field .enum place f us ∧ ts = us ++ ts' := by
  constructor
  · intro h
    obtain ⟨name, us, rfl, hname, h⟩ := parses_expect_bind.mp h
    obtain ⟨equals, us, rfl, hequals, h⟩ := parses_expect_bind.mp h
    obtain ⟨integer, us, value, rfl, hinteger, h⟩ := parses_integer_bind.mp h
    obtain ⟨-, h⟩ := parses_unless.mp (parses_current_bind.mp h)
    obtain ⟨semicolon, us, rfl, hsemicolon, h⟩ := parses_expect_bind.mp h
    obtain ⟨rfl, rfl⟩ := parses_pure.mp h
    exact ⟨_, .entry hname (eq_of_beq hequals) hinteger (eq_of_beq hsemicolon), rfl⟩
  · rintro ⟨us, h, rfl⟩
    cases h with
    | entry hname hequals hinteger hsemicolon =>
      refine parses_expect_bind.mpr ⟨_, _, rfl, hname, ?_⟩
      refine parses_expect_bind.mpr ⟨_, _, rfl, beq_iff_eq.mpr hequals, ?_⟩
      refine parses_integer_bind.mpr ⟨_, _, _, rfl, hinteger, ?_⟩
      refine parses_current_bind.mpr (parses_unless.mpr ⟨by simp [hsemicolon], ?_⟩)
      refine parses_expect_bind.mpr ⟨_, _, rfl, beq_iff_eq.mpr hsemicolon, ?_⟩
      exact parses_pure.mpr ⟨rfl, rfl⟩

theorem parses_structField {f : Schema.Field} {place : Nat} :
    Parses (structField stop place) ts f ts' ↔
      ∃ us, Grammar.Field .struct place f us ∧ ts = us ++ ts' := by
  constructor
  · intro h
    obtain ⟨type, isArray, types, us, rfl, htype, -, h⟩ := parses_fieldType_bind.mp h
    obtain ⟨name, us, rfl, hname, h⟩ := parses_expect_bind.mp h
    obtain ⟨-, h⟩ := parses_unless.mp (parses_current_bind.mp h)
    obtain ⟨-, h⟩ := parses_unless.mp h
    obtain ⟨semicolon, us, rfl, hsemicolon, h⟩ := parses_expect_bind.mp h
    obtain ⟨rfl, rfl⟩ := parses_pure.mp h
    exact ⟨_, .struct htype hname (eq_of_beq hsemicolon), by simp⟩
  · rintro ⟨us, h, rfl⟩
    cases h with
    | @struct _ type isArray types name semicolon htype hname hsemicolon =>
      rw [List.append_assoc]
      refine parses_fieldType_bind.mpr ⟨type, isArray, types, _, rfl, htype, fun _ => ?_, ?_⟩
      · rintro t ⟨⟩
        exact Token.ne_of_isName hname (by decide)
      refine parses_expect_bind.mpr ⟨_, _, rfl, hname, ?_⟩
      refine parses_current_bind.mpr (parses_unless.mpr ⟨by simp [hsemicolon], ?_⟩)
      refine parses_unless.mpr ⟨by simp [hsemicolon], ?_⟩
      refine parses_expect_bind.mpr ⟨_, _, rfl, beq_iff_eq.mpr hsemicolon, ?_⟩
      exact parses_pure.mpr ⟨rfl, rfl⟩

theorem parses_messageField {f : Schema.Field} {place : Nat} :
    Parses (messageField stop) ts f ts' ↔
      ∃ us, Grammar.Field .message place f us ∧ ts = us ++ ts' := by
  constructor
  · intro h
    obtain ⟨type, isArray, types, us, rfl, htype, -, h⟩ := parses_fieldType_bind.mp h
    obtain ⟨name, us, rfl, hname, h⟩ := parses_expect_bind.mp h
    obtain ⟨-, h⟩ := parses_unless.mp (parses_current_bind.mp h)
    obtain ⟨equals, us, rfl, hequals, h⟩ := parses_expect_bind.mp h
    obtain ⟨integer, us, value, rfl, hinteger, h⟩ := parses_integer_bind.mp h
    rcases parses_eat_bind.mp h with ⟨left, us, rfl, hleft, h⟩ | ⟨-, h⟩
    · obtain ⟨word, us, rfl, hword, h⟩ := parses_expect_bind.mp h
      obtain ⟨right, us, rfl, hright, h⟩ := parses_expect_bind.mp h
      obtain ⟨semicolon, us, rfl, hsemicolon, h⟩ := parses_expect_bind.mp h
      obtain ⟨rfl, rfl⟩ := parses_pure.mp h
      exact ⟨_, .message htype hname (eq_of_beq hequals) hinteger
        (.present hleft (eq_of_beq hword) (eq_of_beq hright)) (eq_of_beq hsemicolon), by simp⟩
    · obtain ⟨semicolon, us, rfl, hsemicolon, h⟩ := parses_expect_bind.mp h
      obtain ⟨rfl, rfl⟩ := parses_pure.mp h
      exact ⟨_, .message htype hname (eq_of_beq hequals) hinteger .absent (eq_of_beq hsemicolon),
        by simp⟩
  · rintro ⟨us, h, rfl⟩
    cases h with
    | @message _ type isArray isDeprecated types marks name equals integer semicolon
        value htype hname hequals hinteger hmark hsemicolon =>
      rw [List.append_assoc]
      refine parses_fieldType_bind.mpr ⟨type, isArray, types, _, rfl, htype, fun _ => ?_, ?_⟩
      · rintro t ⟨⟩
        exact Token.ne_of_isName hname (by decide)
      refine parses_expect_bind.mpr ⟨_, _, rfl, hname, ?_⟩
      refine parses_current_bind.mpr (parses_unless.mpr ⟨by simp [hequals], ?_⟩)
      refine parses_expect_bind.mpr ⟨_, _, rfl, beq_iff_eq.mpr hequals, ?_⟩
      refine parses_integer_bind.mpr ⟨_, _, _, rfl, hinteger, ?_⟩
      cases hmark with
      | absent =>
        refine parses_eat_bind.mpr (.inr ⟨by simp [hsemicolon], ?_⟩)
        refine parses_expect_bind.mpr ⟨_, _, rfl, beq_iff_eq.mpr hsemicolon, ?_⟩
        exact parses_pure.mpr ⟨rfl, rfl⟩
      | present hleft hword hright =>
        refine parses_eat_bind.mpr (.inl ⟨_, _, rfl, hleft, ?_⟩)
        refine parses_expect_bind.mpr ⟨_, _, rfl, beq_iff_eq.mpr hword, ?_⟩
        refine parses_expect_bind.mpr ⟨_, _, rfl, beq_iff_eq.mpr hright, ?_⟩
        refine parses_expect_bind.mpr ⟨_, _, rfl, beq_iff_eq.mpr hsemicolon, ?_⟩
        exact parses_pure.mpr ⟨rfl, rfl⟩

theorem parses_field {kind : Kind} {f : Schema.Field} {place : Nat} :
    Parses (field stop kind place) ts f ts' ↔
      ∃ us, Grammar.Field kind place f us ∧ ts = us ++ ts' := by
  cases kind with
  | enum => exact parses_enumEntry
  | struct => exact parses_structField
  | message => exact parses_messageField

/-- The fields up to the brace that closes them. The number of tokens is bound enough. -/
theorem parses_fields {kind : Kind} {name : String} {n place : Nat} {fs : List Schema.Field}
    (hn : ts.length ≤ n) : Parses (fields stop kind name n place) ts fs ts' ↔
      ∃ us right, Sequence (Grammar.Field kind) place fs us ∧ right.text = "\x7d" ∧
        ts = us ++ right :: ts' := by
  induction n generalizing ts fs place with
  | zero =>
    obtain rfl : ts = [] := List.eq_nil_of_length_eq_zero (Nat.le_zero.mp hn)
    exact iff_of_false not_parses_fail (by simp)
  | succ n ih =>
    constructor
    · intro h
      rcases parses_eat_bind.mp h with ⟨right, us, rfl, hright, h⟩ | ⟨-, h⟩
      · obtain ⟨rfl, rfl⟩ := parses_pure.mp h
        exact ⟨[], right, .nil, hright, rfl⟩
      · have h := parses_get_bind.mp h
        split at h
        · exact absurd h not_parses_fail
        obtain ⟨f, us, hfield, h'⟩ := parses_bind.mp h
        obtain ⟨fts, hf, rfl⟩ := parses_field.mp hfield
        obtain ⟨fs, us', hfields, hpure⟩ := parses_bind.mp h'
        obtain ⟨rfl, rfl⟩ := parses_pure.mp hpure
        obtain ⟨t, fts', rfl, -⟩ := hf.exists_name
        have hlength : us.length ≤ n := by
          simp only [List.cons_append, List.length_cons, List.length_append] at hn
          omega
        obtain ⟨fsts, right, hrest, hright, rfl⟩ := (ih hlength).mp hfields
        exact ⟨_, right, .cons hf hrest, hright, by simp⟩
    · rintro ⟨us, right, h, hright, rfl⟩
      cases h with
      | nil =>
        refine parses_eat_bind.mpr (.inl ⟨right, ts', rfl, hright, ?_⟩)
        exact parses_pure.mpr ⟨rfl, rfl⟩
      | @cons _ f fs fts us hf hrest =>
        obtain ⟨t, fts', rfl, ht⟩ := hf.exists_name
        have hlength : (us ++ right :: ts').length ≤ n := by
          simp only [List.cons_append, List.append_assoc, List.length_cons,
            List.length_append] at hn ⊢
          omega
        refine parses_eat_bind.mpr (.inr ⟨?_, parses_get_bind.mpr ?_⟩)
        · rintro t ⟨⟩
          exact Token.ne_of_isName ht (by decide)
        rw [if_neg (by simp), List.append_assoc]
        refine parses_bind.mpr ⟨f, us ++ right :: ts', parses_field.mpr ⟨_, hf, rfl⟩, ?_⟩
        refine parses_bind.mpr ⟨fs, ts', (ih hlength).mpr ⟨us, right, hrest, hright, rfl⟩, ?_⟩
        exact parses_pure.mpr ⟨rfl, rfl⟩

/-! ### Definitions -/

theorem parses_kind_bind {α : Type} {f : Kind → Parser α} {a : α} :
    Parses (kind stop >>= f) ts a ts' ↔ ∃ k t us, ts = t :: us ∧ t.text = Kind.keyword k ∧
      Parses (f k) us a ts' := by
  rw [parses_bind]
  constructor
  · rintro ⟨k, us, hkind, h⟩
    rcases parses_eat_bind.mp hkind with ⟨t, us, rfl, ht, hkind⟩ | ⟨-, hkind⟩
    · obtain ⟨rfl, rfl⟩ := parses_pure.mp hkind
      exact ⟨.enum, t, _, rfl, ht, h⟩
    rcases parses_eat_bind.mp hkind with ⟨t, us, rfl, ht, hkind⟩ | ⟨-, hkind⟩
    · obtain ⟨rfl, rfl⟩ := parses_pure.mp hkind
      exact ⟨.struct, t, _, rfl, ht, h⟩
    rcases parses_eat_bind.mp hkind with ⟨t, us, rfl, ht, hkind⟩ | ⟨-, hkind⟩
    · obtain ⟨rfl, rfl⟩ := parses_pure.mp hkind
      exact ⟨.message, t, _, rfl, ht, h⟩
    exact absurd (parses_current_bind.mp hkind) not_parses_fail
  · rintro ⟨k, t, us, rfl, ht, h⟩
    refine ⟨k, us, ?_, h⟩
    have hnot : ∀ {text : String}, k.keyword ≠ text → ∀ t' ∈ (t :: us).head?, t'.text ≠ text := by
      rintro text hne t' ⟨⟩
      rwa [ht]
    cases k with
    | enum =>
      exact parses_eat_bind.mpr (.inl ⟨t, us, rfl, ht, parses_pure.mpr ⟨rfl, rfl⟩⟩)
    | struct =>
      refine parses_eat_bind.mpr (.inr ⟨hnot (by decide), ?_⟩)
      exact parses_eat_bind.mpr (.inl ⟨t, us, rfl, ht, parses_pure.mpr ⟨rfl, rfl⟩⟩)
    | message =>
      refine parses_eat_bind.mpr (.inr ⟨hnot (by decide), ?_⟩)
      refine parses_eat_bind.mpr (.inr ⟨hnot (by decide), ?_⟩)
      exact parses_eat_bind.mpr (.inl ⟨t, us, rfl, ht, parses_pure.mpr ⟨rfl, rfl⟩⟩)

theorem parses_definition {d : Schema.Definition} : Parses (definition stop) ts d ts' ↔
    ∃ us, Grammar.Definition d us ∧ ts = us ++ ts' := by
  constructor
  · intro h
    obtain ⟨k, keyword, us, rfl, hkeyword, h⟩ := parses_kind_bind.mp h
    obtain ⟨name, us, rfl, hname, h⟩ := parses_expect_bind.mp h
    obtain ⟨left, us, rfl, hleft, h⟩ := parses_expect_bind.mp h
    obtain ⟨fs, us', hparse, hpure⟩ := parses_bind.mp (parses_get_bind.mp h)
    obtain ⟨rfl, rfl⟩ := parses_pure.mp hpure
    obtain ⟨fts, right, hfields, hright, rfl⟩ := (parses_fields (Nat.le_refl _)).mp hparse
    exact ⟨_, .mk hkeyword hname (eq_of_beq hleft) hfields hright, by simp⟩
  · rintro ⟨us, h, rfl⟩
    cases h with
    | @mk k keyword name left right fs fts hkeyword hname hleft hfields hright =>
      refine parses_kind_bind.mpr ⟨k, _, _, rfl, hkeyword, ?_⟩
      refine parses_expect_bind.mpr ⟨_, _, rfl, hname, ?_⟩
      refine parses_expect_bind.mpr ⟨_, _, rfl, beq_iff_eq.mpr hleft, parses_get_bind.mpr ?_⟩
      refine parses_bind.mpr ⟨fs, ts', ?_, parses_pure.mpr ⟨rfl, rfl⟩⟩
      exact (parses_fields (Nat.le_refl _)).mpr ⟨fts, right, hfields, hright, by simp⟩

/-- The definitions up to the end of the tokens, none of which is left. -/
theorem parses_definitions {n : Nat} (place : Nat) {ds : List Schema.Definition}
    (hn : ts.length ≤ n) :
    Parses (definitions stop n) ts ds ts' ↔
      Sequence (fun _ => Grammar.Definition) place ds ts ∧ ts' = [] := by
  induction n generalizing ts ds place with
  | zero =>
    obtain rfl : ts = [] := List.eq_nil_of_length_eq_zero (Nat.le_zero.mp hn)
    rw [Grammar.sequence_definition_nil_iff, @eq_comm _ ds, @eq_comm _ ts']
    exact parses_pure
  | succ n ih =>
    rw [definitions, parses_get_bind]
    cases ts with
    | nil =>
      rw [Grammar.sequence_definition_nil_iff, @eq_comm _ ds, @eq_comm _ ts']
      exact parses_pure
    | cons t ts =>
      rw [if_neg (by simp)]
      constructor
      · intro h
        obtain ⟨d, us, hdefinition, hnext⟩ := parses_bind.mp h
        obtain ⟨dts, hd, hts⟩ := parses_definition.mp hdefinition
        obtain ⟨ds, us', hdefinitions, hpure⟩ := parses_bind.mp hnext
        obtain ⟨rfl, rfl⟩ := parses_pure.mp hpure
        obtain ⟨t', dts', rfl, -⟩ := hd.exists_keyword
        have hlength : us.length ≤ n := by
          rw [hts] at hn
          simp only [List.cons_append, List.length_cons, List.length_append] at hn
          omega
        obtain ⟨hrest, rfl⟩ := (ih (place + 1) hlength).mp hdefinitions
        rw [hts]
        exact ⟨.cons hd hrest, rfl⟩
      · rintro ⟨h, rfl⟩
        generalize hts : t :: ts = us at h
        cases h with
        | nil => cases hts
        | @cons _ d ds dts us hd hrest =>
          have hlength : us.length ≤ n := by
            obtain ⟨t', dts', rfl, -⟩ := hd.exists_keyword
            rw [hts] at hn
            simp only [List.cons_append, List.length_cons, List.length_append] at hn
            omega
          refine parses_bind.mpr ⟨d, us, parses_definition.mpr ⟨dts, hd, rfl⟩, ?_⟩
          refine parses_bind.mpr ⟨ds, [], (ih _ hlength).mpr ⟨hrest, rfl⟩, ?_⟩
          exact parses_pure.mpr ⟨rfl, rfl⟩

/-! ### Packages -/

/-- The further parts of a dotted name go on while there are dots. -/
theorem parses_dotted {n : Nat} (place : Nat) {parts : List String} (hn : ts.length ≤ n) :
    Parses (dotted stop n) ts parts ts' ↔ ∃ us, Sequence (fun _ => Grammar.Part) place parts us ∧
      ts = us ++ ts' ∧ ∀ t ∈ ts'.head?, t.text ≠ "." := by
  induction n generalizing ts parts place with
  | zero =>
    obtain rfl : ts = [] := List.eq_nil_of_length_eq_zero (Nat.le_zero.mp hn)
    constructor
    · intro h
      obtain ⟨rfl, rfl⟩ := parses_pure.mp h
      exact ⟨[], .nil, rfl, by simp⟩
    · rintro ⟨us, h, hus, -⟩
      obtain ⟨rfl, rfl⟩ := List.append_eq_nil_iff.mp hus.symm
      generalize hts : ([] : List Token) = ts at h
      cases h with
      | nil => exact parses_pure.mpr ⟨rfl, rfl⟩
      | cons hitem =>
        cases hitem
        cases hts
  | succ n ih =>
    rw [dotted, parses_eat_bind]
    constructor
    · rintro (⟨dot, us, rfl, hdot, h⟩ | ⟨hnot, h⟩)
      · obtain ⟨name, us, rfl, hname, h⟩ := parses_expect_bind.mp h
        obtain ⟨parts, us', hparts, hpure⟩ := parses_bind.mp h
        obtain ⟨rfl, rfl⟩ := parses_pure.mp hpure
        have hlength : us.length ≤ n := by
          simp only [List.length_cons] at hn
          omega
        obtain ⟨us'', hrest, rfl, hnot⟩ := (ih (place + 1) hlength).mp hparts
        exact ⟨_, .cons (.mk hdot hname) hrest, rfl, hnot⟩
      · obtain ⟨rfl, rfl⟩ := parses_pure.mp h
        exact ⟨[], .nil, rfl, hnot⟩
    · rintro ⟨us, h, rfl, hnot⟩
      cases h with
      | nil => exact .inr ⟨hnot, parses_pure.mpr ⟨rfl, rfl⟩⟩
      | @cons _ part parts _ us hpart hrest =>
        cases hpart with
        | @mk dot name hdot hname =>
          have hlength : (us ++ ts').length ≤ n := by
            simp only [List.cons_append, List.nil_append, List.length_cons] at hn
            omega
          refine .inl ⟨dot, name :: (us ++ ts'), rfl, hdot, ?_⟩
          refine parses_expect_bind.mpr ⟨name, us ++ ts', rfl, hname, ?_⟩
          refine parses_bind.mpr ⟨parts, ts', (ih _ hlength).mpr ⟨us, hrest, rfl, hnot⟩, ?_⟩
          exact parses_pure.mpr ⟨rfl, rfl⟩

/-- A schema begins with its package if its first token is the word for it. -/
theorem parses_package_bind {α : Type} {f : Option String → Parser α} {a : α} :
    Parses (package stop >>= f) ts a ts' ↔ ∃ p us us', ts = us ++ us' ∧ Grammar.Package p us ∧
      (p = none → ∀ t ∈ us'.head?, t.text ≠ "package") ∧ Parses (f p) us' a ts' := by
  rw [parses_bind]
  constructor
  · rintro ⟨p, us', hpackage, h⟩
    rcases parses_eat_bind.mp hpackage
      with ⟨keyword, us, rfl, hkeyword, hpackage⟩ | ⟨hnot, hpackage⟩
    · obtain ⟨first, us, rfl, hfirst, hpackage⟩ := parses_expect_bind.mp hpackage
      obtain ⟨parts, us, hparts, hend⟩ := parses_bind.mp (parses_get_bind.mp hpackage)
      obtain ⟨pts, hdotted, rfl, -⟩ := (parses_dotted 0 (Nat.le_refl _)).mp hparts
      obtain ⟨semicolon, us, rfl, hsemicolon, hpure⟩ := parses_expect_bind.mp hend
      obtain ⟨rfl, rfl⟩ := parses_pure.mp hpure
      exact ⟨_, _, _, by simp, .some hkeyword hfirst hdotted (eq_of_beq hsemicolon), nofun, h⟩
    · obtain ⟨rfl, rfl⟩ := parses_pure.mp hpackage
      exact ⟨none, [], _, rfl, .none, fun _ => hnot, h⟩
  · rintro ⟨p, us, us', rfl, hpackage, hnot, h⟩
    refine ⟨p, us', ?_, h⟩
    cases hpackage with
    | none => exact parses_eat_bind.mpr (.inr ⟨hnot rfl, parses_pure.mpr ⟨rfl, rfl⟩⟩)
    | @some keyword first semicolon parts pts hkeyword hfirst hparts hsemicolon =>
      refine parses_eat_bind.mpr (.inl ⟨_, _, rfl, hkeyword, ?_⟩)
      refine parses_expect_bind.mpr ⟨_, _, rfl, hfirst, parses_get_bind.mpr ?_⟩
      refine parses_bind.mpr ⟨parts, semicolon :: us', ?_, ?_⟩
      · exact (parses_dotted 0 (Nat.le_refl _)).mpr ⟨pts, hparts, by simp, by simp [hsemicolon]⟩
      refine parses_expect_bind.mpr ⟨_, _, rfl, beq_iff_eq.mpr hsemicolon, ?_⟩
      exact parses_pure.mpr ⟨rfl, rfl⟩

theorem parses_schema {s : Schema} :
    Parses (schema stop) ts s ts' ↔ Grammar s ts ∧ ts' = [] := by
  constructor
  · intro h
    obtain ⟨p, us, us', rfl, hpackage, -, h⟩ := parses_package_bind.mp h
    obtain ⟨ds, us'', hparse, hpure⟩ := parses_bind.mp (parses_get_bind.mp h)
    obtain ⟨rfl, rfl⟩ := parses_pure.mp hpure
    obtain ⟨hdefinitions, rfl⟩ := (parses_definitions 0 (Nat.le_refl _)).mp hparse
    exact ⟨.mk hpackage hdefinitions, rfl⟩
  · rintro ⟨h, rfl⟩
    cases h with
    | @mk p ds us us' hpackage hdefinitions =>
      refine parses_package_bind.mpr ⟨p, us, us', rfl, hpackage, fun _ => ?_,
        parses_get_bind.mpr ?_⟩
      · cases hdefinitions with
        | nil => simp
        | @cons _ d ds dts us hd hrest =>
          obtain ⟨t, dts', rfl, ht⟩ := hd.exists_keyword
          rintro t ⟨⟩
          rw [ht]
          cases d.kind <;> decide
      · refine parses_bind.mpr ⟨ds, [],
          (parses_definitions 0 (Nat.le_refl _)).mpr ⟨hdefinitions, rfl⟩, ?_⟩
        exact parses_pure.mpr ⟨rfl, rfl⟩

end Parser

/-- A token list that ends with the end of the text is parsed from the tokens before it. -/
theorem Schema.ofTokens_concat {body : List Token} {last : Token}
    (hbody : ∀ t ∈ body, t.isEnd = false) (hlast : last.isEnd = true) :
    ofTokens (body ++ [last]) = (Parser.schema last.position body).map Prod.fst := by
  have hfind : (body ++ [last]).find? Token.isEnd = some last := by
    rw [List.find?_append, List.find?_eq_none.mpr (by simpa using hbody)]
    simp [hlast]
  have htake : (body ++ [last]).takeWhile (!Token.isEnd ·) = body := by
    rw [List.takeWhile_append_of_pos (by simpa using hbody)]
    simp [hlast]
  simp only [ofTokens, List.getLast?_concat, hfind, htake, hlast, if_true]
  rfl

/-- The parser accepts exactly the tokens of the grammar. -/
theorem Schema.ofTokens_eq_ok_iff {body : List Token} {last : Token} {s : Schema}
    (hbody : ∀ t ∈ body, t.isEnd = false) (hlast : last.isEnd = true) :
    ofTokens (body ++ [last]) = .ok s ↔ Grammar s body := by
  rw [ofTokens_concat hbody hlast, Except.map_eq_ok, Prod.exists]
  constructor
  · rintro ⟨s, ts', hs, rfl⟩
    exact (Parser.parses_schema.mp hs).1
  · intro h
    exact ⟨s, [], Parser.parses_schema.mpr ⟨h, rfl⟩, rfl⟩

theorem Schema.grammar_of_parse {text : String} {s : Schema} (h : parse text = .ok s) :
    ∃ ts, Grammar s ts := by
  obtain ⟨tokens, -, h⟩ := Except.bind_eq_ok.mp h
  obtain ⟨stop, ts', h⟩ := Parser.parses_of_ofTokens h
  exact ⟨_, (Parser.parses_schema.mp h).1⟩

end WireSchema
