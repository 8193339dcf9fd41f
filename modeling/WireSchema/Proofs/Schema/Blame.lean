import WireSchema.Proofs.Schema.Grammar
import WireSchema.Proofs.Schema.Prediction
import WireSchema.Proofs.Schema.Scanning

/-! Where parsing stops: the token that a failed parse blames is the first one with which the tokens
no longer begin those of any schema. -/

namespace WireSchema.Parser

open Schema Grammar

variable {α : Type} {stop : Position} {us ts ts' : List Token} {position : Position}

/-! ### Items and an end -/

section Block

variable {item : Nat → α → List Token → Prop} {E : List Token → Prop} {place : Nat}

/-- Items from a place on, one after the other, and then an end. -/
def Block (item : Nat → α → List Token → Prop) (E : List Token → Prop) (place : Nat)
    (ts : List Token) : Prop :=
  ∃ as us ts', Sequence item place as us ∧ E ts' ∧ ts = us ++ ts'

theorem Block.nil (h : E ts) : Block item E place ts := ⟨[], [], ts, .nil, h, rfl⟩

theorem Block.cons {a : α} (ha : item place a us) (h : Block item E (place + 1) ts) :
    Block item E place (us ++ ts) := by
  obtain ⟨as, vs, ts', has, hE, rfl⟩ := h
  exact ⟨a :: as, us ++ vs, ts', .cons ha has, hE, (List.append_assoc us vs ts').symm⟩

theorem block_iff : Block item E place ts ↔
    E ts ∨ ∃ a us ts', item place a us ∧ Block item E (place + 1) ts' ∧ ts = us ++ ts' := by
  constructor
  · rintro ⟨as, us, ts', has, hE, rfl⟩
    cases has with
    | nil => exact .inl hE
    | @cons _ a as vs us ha has =>
      exact .inr ⟨a, vs, us ++ ts', ha, ⟨as, us, ts', has, hE, rfl⟩, List.append_assoc vs us ts'⟩
  · rintro (hE | ⟨a, us, ts', ha, h, rfl⟩)
    · exact .nil hE
    · exact .cons ha h

theorem Block.opens (h : Block item E place ts) (hE : ¬ E ts) : Opens (item place) ts := by
  obtain ⟨a, us, ts', ha, -, rfl⟩ := (block_iff.mp h).resolve_left hE
  exact ⟨a, us, ts', ha, rfl⟩

theorem block_iff_of_not_opens (h : ¬ Opens (item place) ts) : Block item E place ts ↔ E ts :=
  ⟨fun hblock => by_contra fun hE => h (hblock.opens hE), .nil⟩

theorem block_append_iff (hfree : PrefixFree (item place)) {a : α} (ha : item place a us)
    (hE : ¬ E (us ++ ts)) : Block item E place (us ++ ts) ↔ Block item E (place + 1) ts := by
  constructor
  · intro h
    obtain ⟨b, vs, ts', hb, h, heq⟩ := (block_iff.mp h).resolve_left hE
    exact hfree ha hb heq ▸ h
  · exact .cons ha

/-- Where no item begins, the end is to blame. -/
theorem blames_end (h : Blames stop E ts position)
    (hnot : ∀ ts', ts'.head? = ts.head? → ¬ Opens (item place) ts') :
    Blames stop (Block item E place) ts position := by
  refine h.of_head ?_ fun ts' hts' => block_iff_of_not_opens (hnot ts' hts')
  obtain ⟨us, ts', -, -, ⟨vs, hE⟩, -⟩ := h
  exact ⟨us ++ vs, .nil hE⟩

/-- Where the end does not come, the next item is to blame. -/
theorem blames_item (h : Blames stop (Opens (item place)) ts position) (hviable : ∃ ts, E ts)
    (hE : ∀ ts', ts'.head? = ts.head? → ¬ E ts') : Blames stop (Block item E place) ts position :=
  h.of_opens (fun _ _ ha => hviable.imp fun _ h => .cons ha (.nil h)) fun ts' hts' h =>
    h.opens (hE ts' hts')

end Block

/-- The next token has this text. -/
def Next (text : String) (ts : List Token) : Prop := ∃ t ∈ ts.head?, t.text = text

theorem exists_next (text : String) : ∃ ts, Next text ts := ⟨[⟨text, .none⟩], _, rfl, rfl⟩

theorem not_next_nil {text : String} : ¬ Next text [] := by
  rintro ⟨t, ⟨⟩, -⟩

theorem not_next_iff {text : String} : ¬ Next text ts ↔ ∀ t ∈ ts.head?, t.text ≠ text := by
  simp [Next]

/-! ### Fields -/

theorem predictive_fieldType_bind {f : String × Bool → Parser α}
    (hf : ∀ type isArray, Predictive stop (f (type, isArray))) :
    Predictive stop (fieldType stop >>= f) := by
  rw [fieldType, bind_assoc]
  refine .expect_bind fun type _ => ?_
  rw [bind_assoc]
  refine .eat_bind ?_ ?_
  · rw [if_pos rfl, bind_assoc]
    exact .expect_bind fun _ _ => hf _ _
  · exact hf _ _

theorem predictive_enumEntry : Predictive stop (enumEntry stop) := by
  refine .expect_bind fun name _ => .expect_bind fun equals _ => .integer_bind fun value => ?_
  refine .current_bind (fun t => t.text = "[")
    (fun t ts ht => congrFun (if_neg (by simpa using ht)) ts)
    (fun t ts ht => ⟨.notDeprecatable, ?_⟩) (.expect_bind fun _ _ => .pure _)
    ⟨[⟨";", .none⟩], by simp, _, [], rfl⟩
  rw [if_pos (beq_iff_eq.mpr ht)]
  rfl

theorem predictive_structField {place : Nat} : Predictive stop (structField stop place) := by
  refine predictive_fieldType_bind fun type isArray => .expect_bind fun name _ => ?_
  refine .current_bind (fun t => t.text = "=" ∨ t.text = "[")
    (fun t ts ht => congrFun ((if_neg (by simpa using (not_or.mp ht).1)).trans
      (if_neg (by simpa using (not_or.mp ht).2))) ts)
    (fun t ts ht => ?_) (.expect_bind fun _ _ => .pure _) ⟨[⟨";", .none⟩], by simp, _, [], rfl⟩
  by_cases hequals : t.text = "="
  · rw [if_pos (beq_iff_eq.mpr hequals)]
    exact ⟨_, rfl⟩
  · rw [if_neg (by simpa using hequals), if_pos (beq_iff_eq.mpr (ht.resolve_left hequals))]
    exact ⟨_, rfl⟩

theorem predictive_messageField : Predictive stop (messageField stop) := by
  refine predictive_fieldType_bind fun type isArray => .expect_bind fun name _ => ?_
  refine .current_bind (fun t => t.text ≠ "=")
    (fun t ts ht => congrFun (if_neg (by simpa using ht)) ts) (fun t ts ht => ⟨.noId name.text, ?_⟩)
    (.expect_bind fun equals _ => .integer_bind fun value => .eat_bind
      (.expect_bind fun _ _ => .expect_bind fun _ _ => .expect_bind fun _ _ => .pure _)
      (.expect_bind fun _ _ => .pure _))
    ⟨[⟨"=", .none⟩, ⟨"0", .none⟩, ⟨";", .none⟩], by simp, _, [], rfl⟩
  rw [if_pos (by simpa using ht)]
  rfl

theorem predictive_field {kind : Kind} {place : Nat} : Predictive stop (field stop kind place) := by
  cases kind with
  | enum => exact predictive_enumEntry
  | struct => exact predictive_structField
  | message => exact predictive_messageField

theorem recognizes_field {kind : Kind} {place : Nat} :
    Recognizes (field stop kind place) (Grammar.Field kind place) :=
  parses_field

theorem prefixFree_field {kind : Kind} {place : Nat} : PrefixFree (Grammar.Field kind place) :=
  Recognizes.prefixFree (p := field .none kind place) recognizes_field

/-- The text may not end before the brace that closes the fields. -/
theorem blames_unclosed {kind : Kind} {place : Nat} :
    Blames stop (Block (Grammar.Field kind) (Next "\x7d") place) [] stop := by
  refine .head ((exists_next _).imp fun ts => .nil) fun ts' hts' h => ?_
  obtain rfl := List.head?_eq_none_iff.mp hts'
  obtain ⟨f, us, ts', hf, hus⟩ := h.opens not_next_nil
  obtain ⟨t, us', rfl, -⟩ := hf.exists_name
  cases hus

/-- The fields up to the brace that closes them. -/
theorem blames_fields {kind : Kind} {name : String} {n place : Nat} {e : ParseError}
    (hn : ts.length ≤ n) (he : fields stop kind name n place ts = .error e) :
    Blames stop (Block (Grammar.Field kind) (Next "\x7d") place) ts e.position := by
  induction n generalizing ts place with
  | zero =>
    obtain rfl : ts = [] := List.eq_nil_of_length_eq_zero (Nat.le_zero.mp hn)
    obtain rfl := Except.error.inj he
    exact blames_unclosed
  | succ n ih =>
    rw [fields] at he
    by_cases hclose : Next "\x7d" ts
    · obtain ⟨right, hright, htext⟩ := hclose
      obtain ⟨ts, rfl⟩ := List.head?_eq_some_iff.mp hright
      rw [bind_eq_of_parses (parses_eat.mpr (.inl ⟨rfl, right, rfl, htext⟩))] at he
      cases he
    rw [bind_eq_of_parses (parses_eat.mpr (.inr ⟨rfl, rfl, not_next_iff.mp hclose⟩)),
      if_neg (by decide), bind_eq_of_parses (parses_get.mpr ⟨rfl, rfl⟩)] at he
    split at he
    · rename_i hempty
      obtain rfl := List.isEmpty_iff.mp hempty
      obtain rfl := Except.error.inj he
      exact blames_unclosed
    rcases bind_eq_error.mp he with hfield | ⟨f, us, hparses, hnext⟩
    · have hopens := (predictive_field.blames hfield).congr fun ts =>
        recognizes_field.accepts_iff.symm
      refine blames_item hopens (exists_next _) ?_
      rintro ts' hts' ⟨t, ht, htext⟩
      exact hclose ⟨t, hts' ▸ ht, htext⟩
    · obtain ⟨fts, hf, rfl⟩ := recognizes_field.mp hparses
      obtain ⟨t, fts', hfts, -⟩ := hf.exists_name
      have hlength : us.length ≤ n := by
        rw [hfts, List.cons_append, List.length_cons, List.length_append] at hn
        omega
      refine (ih hlength (bind_pure_eq_error.mp hnext)).append fun ts =>
        block_append_iff prefixFree_field hf ?_
      rw [hfts] at hclose ⊢
      exact hclose

/-! ### Definitions -/

theorem parses_kind {k : Kind} {t : Token} (ht : t.text = k.keyword) :
    Parses (kind stop) (t :: ts) k ts := by
  rw [← bind_pure (kind stop)]
  exact parses_kind_bind.mpr ⟨k, t, ts, rfl, ht, parses_pure.mpr ⟨rfl, rfl⟩⟩

theorem predictive_kind_bind {f : Kind → Parser α} (hf : ∀ k, Predictive stop (f k)) :
    Predictive stop (kind stop >>= f) := by
  refine .of_first (fun t => ∃ k : Kind, t.text = k.keyword) ⟨⟨"enum", .none⟩, .enum, rfl⟩
    (fun t ht => ?_) fun ts hnot => ?_
  · obtain ⟨k, ht⟩ := ht
    exact ⟨f k, hf k, fun ts => bind_eq_of_parses (parses_kind ht)⟩
  · have heat : ∀ k : Kind, Parses (eat k.keyword) ts false ts := fun k =>
      parses_eat.mpr (.inr ⟨rfl, rfl, fun t ht htext => hnot t ht ⟨k, htext⟩⟩)
    have henum : Parses (eat "enum") ts false ts := heat .enum
    have hstruct : Parses (eat "struct") ts false ts := heat .struct
    have hmessage : Parses (eat "message") ts false ts := heat .message
    refine ⟨.noDefinition (ts.head?.getD ⟨"", stop⟩).text, bind_eq_error.mpr (.inl ?_)⟩
    rw [kind, bind_eq_of_parses henum, if_neg (by decide), bind_eq_of_parses hstruct,
      if_neg (by decide), bind_eq_of_parses hmessage, if_neg (by decide)]
    rfl

theorem predictive_definition : Predictive stop (definition stop) := by
  refine predictive_kind_bind fun k => .expect_bind fun name _ => .expect_bind fun _ _ => ?_
  refine .of_blames (fun ts => ?_) ((exists_next "\x7d").imp fun ts => .nil)
    (blames_fields (Nat.le_refl _))
  constructor
  · rintro ⟨fs, ts', h⟩
    obtain ⟨us, right, hus, hright, rfl⟩ := (parses_fields (Nat.le_refl _)).mp h
    exact ⟨fs, us, right :: ts', hus, ⟨right, rfl, hright⟩, rfl⟩
  · rintro ⟨fs, us, ts', hus, ⟨right, hhead, hright⟩, rfl⟩
    obtain ⟨ts', rfl⟩ := List.head?_eq_some_iff.mp hhead
    exact ⟨fs, ts', (parses_fields (Nat.le_refl _)).mpr ⟨us, right, hus, hright, rfl⟩⟩

theorem recognizes_definition : Recognizes (definition stop) Grammar.Definition :=
  parses_definition

theorem blames_definitions {n place : Nat} {e : ParseError} (hn : ts.length ≤ n)
    (he : definitions stop n ts = .error e) :
    Blames stop (Block (fun _ => Grammar.Definition) (· = []) place) ts e.position := by
  induction n generalizing ts place with
  | zero => cases he
  | succ n ih =>
    cases ts with
    | nil => cases he
    | cons t ts =>
      rw [definitions, bind_eq_of_parses (parses_get.mpr ⟨rfl, rfl⟩), if_neg (by simp)] at he
      rcases bind_eq_error.mp he with hdefinition | ⟨d, us, hparses, hnext⟩
      · have hopens := (predictive_definition.blames hdefinition).congr fun ts =>
          recognizes_definition.accepts_iff.symm
        refine blames_item hopens ⟨[], rfl⟩ ?_
        rintro ts' hts' rfl
        cases hts'
      · obtain ⟨dts, hd, hts⟩ := recognizes_definition.mp hparses
        obtain ⟨t', dts', rfl, -⟩ := hd.exists_keyword
        rw [hts] at hn ⊢
        have hlength : us.length ≤ n := by
          rw [List.cons_append, List.length_cons, List.length_append] at hn
          omega
        have hfree : PrefixFree Grammar.Definition :=
          Recognizes.prefixFree (p := definition .none) recognizes_definition
        have hnonempty : ∀ ts, t' :: dts' ++ ts ≠ [] := fun ts => List.cons_ne_nil _ _
        exact (ih hlength (bind_pure_eq_error.mp hnext)).append fun ts =>
          block_append_iff hfree hd (hnonempty ts)

/-- The definitions up to the end of the tokens. -/
theorem accepts_definitions_iff {n : Nat} (hn : ts.length ≤ n) : Accepts (definitions stop n) ts ↔
    Block (fun _ => Grammar.Definition) (· = []) 0 ts := by
  constructor
  · rintro ⟨ds, ts', h⟩
    obtain ⟨hds, rfl⟩ := (parses_definitions 0 hn).mp h
    exact ⟨ds, ts, [], hds, rfl, (List.append_nil ts).symm⟩
  · rintro ⟨ds, us, ts', hds, rfl, rfl⟩
    rw [List.append_nil] at hn ⊢
    exact ⟨ds, [], (parses_definitions 0 hn).mpr ⟨hds, rfl⟩⟩

/-! ### Packages and schemas -/

theorem prefixFree_part : PrefixFree Part := by
  rintro a b us vs ts ts' ⟨-, -⟩ ⟨-, -⟩ heq
  exact (List.cons.inj (List.cons.inj heq).2).2

/-- A further part begins with a dot and goes on with a name. -/
theorem opens_part_iff {dot : Token} (hdot : dot.text = ".") :
    Opens Part ([dot] ++ ts) ↔ Accepts (expect stop .identifier) ts := by
  constructor
  · rintro ⟨part, us, ts', ⟨-, hname⟩, heq⟩
    obtain ⟨rfl, rfl⟩ := List.cons.inj heq
    exact ⟨_, ts', parses_expect.mpr ⟨rfl, hname⟩⟩
  · rintro ⟨name, ts', h⟩
    obtain ⟨rfl, hname⟩ := parses_expect.mp h
    exact ⟨name.text, [dot, name], ts', .mk hdot hname, rfl⟩

section Dotted

variable {k : List String → Parser α} {E : List Token → Prop}

/-- Where no dot comes, what comes after the name is to blame. -/
theorem blames_undotted {place : Nat} {e : ParseError} {p : Parser α} (hp : Predictive stop p)
    (hE : ∀ ts, Accepts p ts ↔ E ts) (hnot : ¬ Next "." ts) (he : p ts = .error e) :
    Blames stop (Block (fun _ => Part) E place) ts e.position := by
  refine blames_end ((hp.blames he).congr fun ts => (hE ts).symm) ?_
  rintro ts' hts' ⟨part, us, rest, ⟨hdot, -⟩, rfl⟩
  exact hnot ⟨_, hts' ▸ rfl, hdot⟩

/-- The further parts of a dotted name, and what comes after them, which begins with no dot. -/
theorem blames_dotted {n place : Nat} {e : ParseError} (hk : ∀ parts, Predictive stop (k parts))
    (hE : ∀ parts ts, Accepts (k parts) ts ↔ E ts) (hdot : ∀ ts, E ts → ¬ Next "." ts)
    (hn : ts.length ≤ n) (he : (dotted stop n >>= k) ts = .error e) :
    Blames stop (Block (fun _ => Part) E place) ts e.position := by
  induction n generalizing ts place k with
  | zero =>
    obtain rfl : ts = [] := List.eq_nil_of_length_eq_zero (Nat.le_zero.mp hn)
    exact blames_undotted (hk []) (hE []) not_next_nil he
  | succ n ih =>
    rw [dotted, bind_assoc] at he
    by_cases hnext : Next "." ts
    · obtain ⟨dot, hhead, htext⟩ := hnext
      obtain ⟨ts, rfl⟩ := List.head?_eq_some_iff.mp hhead
      have hend : ∀ ts', ts'.head? = some dot → ¬ E ts' :=
        fun ts' hts' h => hdot ts' h ⟨dot, hts', htext⟩
      rw [bind_eq_of_parses (parses_eat.mpr (.inl ⟨rfl, dot, rfl, htext⟩)), if_pos rfl,
        bind_assoc] at he
      rcases bind_eq_error.mp he with hname | ⟨name, us, hparses, hrest⟩
      · have hopens := (predictive_expect.blames hname).append fun ts => opens_part_iff htext
        exact blames_item hopens ((hk []).viable.imp fun ts => (hE [] ts).mp) hend
      · obtain ⟨rfl, hname⟩ := parses_expect.mp hparses
        have hlength : us.length ≤ n := by
          simp only [List.length_cons] at hn
          omega
        rw [bind_assoc] at hrest
        have hblames : Blames stop (Block (fun _ => Part) E (place + 1)) us e.position :=
          ih (fun parts => hk (name.text :: parts))
            (fun parts => hE (name.text :: parts)) hlength hrest
        exact hblames.append fun ts =>
          block_append_iff prefixFree_part (.mk htext hname) (hend _ rfl)
    · rw [bind_eq_of_parses (parses_eat.mpr (.inr ⟨rfl, rfl, not_next_iff.mp hnext⟩)),
        if_neg (by decide), pure_bind] at he
      exact blames_undotted (hk []) (hE []) hnext he

theorem accepts_dotted_iff {n : Nat} (hE : ∀ parts ts, Accepts (k parts) ts ↔ E ts)
    (hdot : ∀ ts, E ts → ¬ Next "." ts) (hn : ts.length ≤ n) :
    Accepts (dotted stop n >>= k) ts ↔ Block (fun _ => Part) E 0 ts := by
  constructor
  · rintro ⟨a, rest, h⟩
    obtain ⟨parts, ts', hparts, ha⟩ := parses_bind.mp h
    obtain ⟨us, hus, rfl, -⟩ := (parses_dotted 0 hn).mp hparts
    exact ⟨parts, us, ts', hus, (hE parts ts').mp ⟨a, rest, ha⟩, rfl⟩
  · rintro ⟨parts, us, ts', hus, h, rfl⟩
    obtain ⟨a, rest, ha⟩ := (hE parts ts').mpr h
    have hparts : Parses (dotted stop n) (us ++ ts') parts ts' :=
      (parses_dotted 0 hn).mpr ⟨us, hus, rfl, not_next_iff.mp (hdot ts' h)⟩
    exact ⟨a, rest, parses_bind.mpr ⟨parts, ts', hparts, ha⟩⟩

theorem predictive_dotted_bind (hk : ∀ parts, Predictive stop (k parts))
    (hE : ∀ parts ts, Accepts (k parts) ts ↔ E ts)
    (hdot : ∀ ts, E ts → ¬ Next "." ts) :
    Predictive stop (get >>= fun ts => dotted stop ts.length >>= k) := by
  have haccepts : ∀ ts, Accepts (get >>= fun ts => dotted stop ts.length >>= k) ts ↔
      Block (fun _ => Part) E 0 ts :=
    fun ts => (accepts_bind_iff (parses_get.mpr ⟨rfl, rfl⟩)).trans
      (accepts_dotted_iff hE hdot (Nat.le_refl _))
  refine ⟨(hk []).viable.imp fun ts hts => (haccepts ts).mpr (.nil ((hE [] ts).mp hts)),
    fun {ts e} he => ?_⟩
  rw [bind_eq_of_parses (parses_get.mpr ⟨rfl, rfl⟩)] at he
  exact (blames_dotted hk hE hdot (Nat.le_refl _) he).congr haccepts

end Dotted

theorem predictive_schema : Predictive stop (schema stop) := by
  have hdefinitions : ∀ package : Option String, Predictive stop (get >>= fun ts =>
      definitions stop ts.length >>= fun ds => pure (⟨package, ds⟩ : Schema)) :=
    fun package => .of_blames (fun ts => accepts_definitions_iff (Nat.le_refl _)) ⟨[], .nil rfl⟩
      (blames_definitions (Nat.le_refl _))
  rw [schema, package, bind_assoc]
  refine .eat_bind ?_ (hdefinitions none)
  rw [if_pos rfl, bind_assoc]
  refine .expect_bind fun first _ => ?_
  simp only [bind_assoc, pure_bind]
  refine predictive_dotted_bind
    (E := fun ts => ∃ semicolon us, ts = semicolon :: us ∧
      Token.satisfies semicolon.text .semicolon = true ∧
      Block (fun _ => Grammar.Definition) (· = []) 0 us)
    (fun parts => .expect_bind fun _ _ => hdefinitions _) (fun parts ts => ?_) ?_
  · rw [accepts_expect_bind_iff]
    simp only [accepts_bind_iff (parses_get.mpr ⟨rfl, rfl⟩), accepts_bind_pure_iff,
      accepts_definitions_iff (Nat.le_refl _)]
  · rintro ts ⟨semicolon, us, rfl, hsemicolon, -⟩ ⟨dot, ⟨⟩, hdot⟩
    rw [hdot] at hsemicolon
    cases hsemicolon

theorem grammar_iff_accepts (ts : List Token) : (∃ s, Grammar s ts) ↔ Accepts (schema stop) ts := by
  constructor
  · rintro ⟨s, hs⟩
    exact ⟨s, [], parses_schema.mpr ⟨hs, rfl⟩⟩
  · rintro ⟨s, ts', h⟩
    exact ⟨s, (parses_schema.mp h).1⟩

end WireSchema.Parser

namespace WireSchema

/-! ### The token to blame -/

namespace Token

/-- Tokens of a text, none of which is its end. -/
def Proper (ts : List Token) : Prop := ∀ t ∈ ts, t.text ≠ ""

theorem ne_empty_of_isName {text : String} (h : isName text = true) :
    text ≠ "" := ne_of_isName h (by decide)

theorem ne_empty_of_isInteger {text : String} (h : isInteger text = true) : text ≠ "" := by
  rintro rfl
  exact absurd h (by decide)

theorem Proper.append {ts us : List Token} (hts : Proper ts) (hus : Proper us) :
    Proper (ts ++ us) :=
  List.forall_mem_append.mpr ⟨hts, hus⟩

end Token

namespace Grammar

open Token

theorem FieldType.proper {type : String} {isArray : Bool} {ts : List Token}
    (h : FieldType type isArray ts) : Proper ts := by
  cases h with
  | one htype => simp [Proper, ne_empty_of_isName htype]
  | many htype hleft hright => simp [Proper, ne_empty_of_isName htype, hleft, hright]

theorem Deprecation.proper {isDeprecated : Bool} {ts : List Token}
    (h : Deprecation isDeprecated ts) : Proper ts := by
  cases h with
  | absent => simp [Proper]
  | present hleft hword hright => simp [Proper, hleft, hword, hright]

theorem Field.proper {kind : Kind} {place : Nat} {f : Schema.Field} {ts : List Token}
    (h : Field kind place f ts) : Proper ts := by
  cases h with
  | entry hname hequals hinteger hsemicolon =>
    simp [Proper, ne_empty_of_isName hname, hequals, ne_empty_of_isInteger hinteger.1, hsemicolon]
  | struct htype hname hsemicolon =>
    exact htype.proper.append (by simp [Proper, ne_empty_of_isName hname, hsemicolon])
  | message htype hname hequals hinteger hmark hsemicolon =>
    refine htype.proper.append (List.forall_mem_cons.mpr ⟨ne_empty_of_isName hname, ?_⟩)
    refine List.forall_mem_cons.mpr ⟨by simp [hequals], ?_⟩
    refine List.forall_mem_cons.mpr ⟨ne_empty_of_isInteger hinteger.1, hmark.proper.append ?_⟩
    simp [Proper, hsemicolon]

theorem Sequence.proper {α : Type} {item : Nat → α → List Token → Prop} {place : Nat} {as : List α}
    {ts : List Token} (h : Sequence item place as ts)
    (hitem : ∀ {place a ts}, item place a ts → Proper ts) : Proper ts := by
  induction h with
  | nil => simp [Proper]
  | cons ha hrest ih => exact (hitem ha).append ih

theorem Definition.proper {d : Schema.Definition} {ts : List Token} (h : Definition d ts) :
    Proper ts := by
  cases h with
  | @mk kind keyword name left right fields ts hkeyword hname hleft hfields hright =>
    have hkind : kind.keyword ≠ "" := by cases kind <;> decide
    refine List.forall_mem_cons.mpr ⟨hkeyword ▸ hkind,
      List.forall_mem_cons.mpr ⟨ne_empty_of_isName hname, ?_⟩⟩
    refine List.forall_mem_cons.mpr ⟨by simp [hleft], (hfields.proper Field.proper).append ?_⟩
    simp [Proper, hright]

theorem Package.proper {p : Option String} {ts : List Token} (h : Package p ts) : Proper ts := by
  cases h with
  | none => simp [Proper]
  | some hkeyword hfirst hparts hsemicolon =>
    refine List.forall_mem_cons.mpr ⟨by simp [hkeyword],
      List.forall_mem_cons.mpr ⟨ne_empty_of_isName hfirst, ?_⟩⟩
    refine Token.Proper.append (hparts.proper ?_) (by simp [Proper, hsemicolon])
    rintro _ _ _ ⟨hdot, hname⟩
    simp [Proper, hdot, ne_empty_of_isName hname]

theorem proper {s : Schema} {ts : List Token} (h : Grammar s ts) : Proper ts := by
  cases h with
  | mk hpackage hdefinitions => exact hpackage.proper.append (hdefinitions.proper Definition.proper)

/-- Tokens that begin those of some schema, with the end of the text after them. -/
def Begins (ts : List Token) : Prop :=
  ∃ s body last, Grammar s body ∧ last.isEnd = true ∧ ts <+: body ++ [last]

/-- The last token of those that begin a schema is its end, or stands inside it. -/
theorem Begins.cases {ts : List Token} {t : Token} (h : Begins (ts ++ [t])) :
    (t.isEnd = true ∧ ∃ s, Grammar s ts) ∨ ∃ s us, Grammar s (ts ++ t :: us) := by
  obtain ⟨s, body, last, hs, hlast, rest, heq⟩ := h
  rw [List.append_assoc, List.singleton_append] at heq
  rcases List.append_eq_append_iff.mp heq with ⟨us, rfl, hus⟩ | ⟨us, rfl, hus⟩
  · cases us with
    | nil =>
      obtain ⟨rfl, -⟩ := List.cons.inj hus
      exact .inl ⟨hlast, s, by simpa using hs⟩
    | cons u us =>
      obtain ⟨rfl, -⟩ := List.cons.inj hus
      exact .inr ⟨s, us, hs⟩
  · obtain ⟨rfl, hus⟩ | ⟨-, ⟨⟩⟩ := List.append_eq_singleton_iff.mp hus.symm
    obtain ⟨rfl, -⟩ := List.cons.inj hus
    exact .inl ⟨hlast, s, by simpa using hs⟩

theorem isEnd_eq_false_of_proper {ts : List Token} {t : Token} (h : Proper ts) (ht : t ∈ ts) :
    t.isEnd = false := by
  simpa [Token.isEnd] using h t ht

end Grammar

/-- Tokens that are refused are refused at the first with which they no longer begin a schema. -/
theorem Schema.exists_of_blames {body : List Token} {last : Token} {position : Position}
    (hbody : ∀ t ∈ body, t.isEnd = false) (hlast : last.isEnd = true)
    (h : Parser.Blames last.position (fun ts => ∃ s, Grammar s ts) body position) :
    ∃ before t after, body ++ [last] = before ++ t :: after ∧ position = t.position ∧
      Grammar.Begins before ∧ ¬ Grammar.Begins (before ++ [t]) := by
  obtain ⟨us, ts, rfl, hposition, ⟨vs, s, hs⟩, hnot⟩ := h
  have hbegins : Grammar.Begins us :=
    ⟨s, us ++ vs, last, hs, hlast, ⟨vs ++ [last], (List.append_assoc us vs [last]).symm⟩⟩
  cases ts with
  | nil =>
    refine ⟨us, last, [], by simp, hposition, hbegins, fun h => ?_⟩
    rcases h.cases with ⟨-, s, hs⟩ | ⟨s, ts, hs⟩
    · exact hnot [] rfl ⟨s, by simpa using hs⟩
    · have hfalse := Grammar.isEnd_eq_false_of_proper (t := last) hs.proper (by simp)
      rw [hfalse] at hlast
      cases hlast
  | cons t ts =>
    refine ⟨us, t, ts ++ [last], by simp, hposition, hbegins, fun h => ?_⟩
    rcases h.cases with ⟨hend, -⟩ | ⟨s, ts, hs⟩
    · rw [hbody t (by simp)] at hend
      cases hend
    · exact hnot (t :: ts) rfl ⟨s, hs⟩

/-- The parser accepts exactly the tokens of the grammar, whose integers are those that digits 0 to
9 spell and that fit 32 bits. It refuses other tokens, and blames the first with which they no
longer begin a schema. -/
theorem Schema.ofTokens_predicts {body : List Token} {last : Token}
    (hbody : ∀ t ∈ body, t.isEnd = false) (hlast : last.isEnd = true) :
    (∀ s, ofTokens (body ++ [last]) = .ok s ↔ Grammar s body) ∧
    (∀ t n, Grammar.Integer t n ↔ Token.Spells t.text.toList n.toInt) ∧
    ((∀ s, ¬ Grammar s body) → ∃ e before t after, ofTokens (body ++ [last]) = .error e ∧
      body ++ [last] = before ++ t :: after ∧ e.position = t.position ∧
      Grammar.Begins before ∧ ¬ Grammar.Begins (before ++ [t])) := by
  refine ⟨fun s => ofTokens_eq_ok_iff hbody hlast, fun t n => Token.isInteger_and_int32?_iff,
    fun hnot => ?_⟩
  cases he : Parser.schema last.position body with
  | ok r =>
    obtain ⟨s, rest⟩ := r
    exact absurd (Parser.parses_schema.mp he).1 (hnot s)
  | error e =>
    have hblames := (Parser.predictive_schema.blames he).congr Parser.grammar_iff_accepts
    obtain ⟨before, t, after, hbefore, ht, hbegins, hstops⟩ := exists_of_blames hbody hlast hblames
    refine ⟨e, before, t, after, ?_, hbefore, ht, hbegins, hstops⟩
    rw [ofTokens_concat hbody hlast, he]
    rfl

/-- A struct field cannot have an id: the sign before it is to blame. -/
theorem Schema.ofTokens_predicts_structId :
    let body : List Token :=
      [⟨"struct", ⟨1, 1⟩⟩, ⟨"S", ⟨1, 8⟩⟩, ⟨"\x7b", ⟨1, 10⟩⟩, ⟨"int", ⟨1, 12⟩⟩, ⟨"a", ⟨1, 16⟩⟩,
        ⟨"=", ⟨1, 18⟩⟩, ⟨"1", ⟨1, 20⟩⟩, ⟨";", ⟨1, 21⟩⟩, ⟨"\x7d", ⟨1, 23⟩⟩]
    let last : Token := ⟨"", ⟨1, 24⟩⟩
    (∀ t ∈ body, t.isEnd = false) ∧ last.isEnd = true ∧ (∀ s, ¬ Grammar s body) ∧
      ofTokens (body ++ [last]) = .error ⟨.structId "a", ⟨1, 18⟩⟩ ∧
      ∃ before t after, body ++ [last] = before ++ t :: after ∧ t.position = ⟨1, 18⟩ ∧
        Grammar.Begins before ∧ ¬ Grammar.Begins (before ++ [t]) := by
  intro body last
  have hbody : ∀ t ∈ body, t.isEnd = false := by decide
  have hlast : last.isEnd = true := by decide
  have he : ofTokens (body ++ [last]) = .error ⟨.structId "a", ⟨1, 18⟩⟩ := by decide +kernel
  obtain ⟨haccepts, -, hrefuses⟩ := ofTokens_predicts hbody hlast
  have hnot : ∀ s, ¬ Grammar s body := fun s hs => by
    rw [(haccepts s).mpr hs] at he
    cases he
  obtain ⟨e, before, t, after, he', hbefore, ht, hbegins⟩ := hrefuses hnot
  obtain rfl := Except.error.inj (he.symm.trans he')
  exact ⟨hbody, hlast, hnot, he, before, t, after, hbefore, ht.symm, hbegins⟩

end WireSchema
