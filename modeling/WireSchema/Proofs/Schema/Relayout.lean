import WireSchema.Proofs.Schema.Grammar
import WireSchema.Proofs.Schema.Lexing

/-! Layout and comments mean nothing. The tokens of a text may be put together again with anything
between them that is no token, as long as there is something: they are scanned as the same tokens,
since a token ends before a break wherever it stands. The grammar looks at the texts of tokens only,
so that the schema is the same but for its places. -/

namespace WireSchema

open Schema

/-! ### Tokens of the same texts -/

/-- The tokens have the same texts, wherever they stand. -/
abbrev SameTexts (ts ts' : List Token) : Prop := List.Forall₂ (fun t t' => t'.text = t.text) ts ts'

theorem sameTexts_iff {ts ts' : List Token} :
    SameTexts ts ts' ↔ ts'.map (·.text) = ts.map (·.text) := by
  rw [SameTexts, @eq_comm _ (ts'.map _), ← List.forall₂_eq_eq_eq, List.forall₂_map_left_iff,
    List.forall₂_map_right_iff]
  simp only [eq_comm]

namespace Grammar

variable {ts ts' : List Token}

theorem FieldType.of_sameTexts {type : String} {isArray : Bool} (h : FieldType type isArray ts)
    (hts : SameTexts ts ts') : FieldType type isArray ts' := by
  cases h with
  | one htype =>
    obtain _ | ⟨ht, ⟨⟩⟩ := hts
    rw [← ht] at htype ⊢
    exact .one htype
  | many htype hleft hright =>
    obtain _ | ⟨ht, _ | ⟨hleft', _ | ⟨hright', ⟨⟩⟩⟩⟩ := hts
    rw [← ht] at htype ⊢
    exact .many htype (hleft'.trans hleft) (hright'.trans hright)

theorem Deprecation.of_sameTexts {isDeprecated : Bool} (h : Deprecation isDeprecated ts)
    (hts : SameTexts ts ts') : Deprecation isDeprecated ts' := by
  cases h with
  | absent =>
    obtain ⟨⟩ := hts
    exact .absent
  | present hleft hword hright =>
    obtain _ | ⟨hleft', _ | ⟨hword', _ | ⟨hright', ⟨⟩⟩⟩⟩ := hts
    exact .present (hleft'.trans hleft) (hword'.trans hword) (hright'.trans hright)

theorem Integer.of_text_eq {t t' : Token} {n : Int32} (h : Integer t n) (ht : t'.text = t.text) :
    Integer t' n := by
  rwa [Integer, ht]

theorem Field.of_sameTexts {kind : Kind} {place : Nat} {f : Schema.Field}
    (h : Field kind place f ts) (hts : SameTexts ts ts') :
    ∃ f', Field kind place f' ts' ∧ f'.withoutPosition = f.withoutPosition := by
  cases h with
  | entry hname hequals hinteger hsemicolon =>
    obtain _ | ⟨hname', _ | ⟨hequals', _ | ⟨hinteger', _ | ⟨hsemicolon', ⟨⟩⟩⟩⟩⟩ := hts
    refine ⟨_, .entry (hname' ▸ hname) (hequals'.trans hequals) (hinteger.of_text_eq hinteger')
      (hsemicolon'.trans hsemicolon), ?_⟩
    simp [Schema.Field.withoutPosition, hname']
  | struct htype hname hsemicolon =>
    obtain ⟨types, _, rfl, htypes, _ | ⟨hname', _ | ⟨hsemicolon', ⟨⟩⟩⟩⟩ :=
      Except.forall₂_append_iff.mp hts
    refine ⟨_, .struct (htype.of_sameTexts htypes) (hname' ▸ hname) (hsemicolon'.trans hsemicolon),
      ?_⟩
    simp [Schema.Field.withoutPosition, hname']
  | message htype hname hequals hinteger hmark hsemicolon =>
    obtain ⟨types, _, rfl, htypes, _ | ⟨hname', _ | ⟨hequals', _ | ⟨hinteger', hrest⟩⟩⟩⟩ :=
      Except.forall₂_append_iff.mp hts
    obtain ⟨marks, _, rfl, hmarks, _ | ⟨hsemicolon', ⟨⟩⟩⟩ := Except.forall₂_append_iff.mp hrest
    refine ⟨_, .message (htype.of_sameTexts htypes) (hname' ▸ hname) (hequals'.trans hequals)
      (hinteger.of_text_eq hinteger') (hmark.of_sameTexts hmarks) (hsemicolon'.trans hsemicolon),
      ?_⟩
    simp [Schema.Field.withoutPosition, hname']

theorem Sequence.of_sameTexts {α : Type} {item : Nat → α → List Token → Prop} {place : Nat}
    {as : List α} (h : Sequence item place as ts) (bare : α → α) (hts : SameTexts ts ts')
    (hitem : ∀ {place a ts ts'}, item place a ts → SameTexts ts ts' →
      ∃ a', item place a' ts' ∧ bare a' = bare a) :
    ∃ as', Sequence item place as' ts' ∧ as'.map bare = as.map bare := by
  induction h generalizing ts' with
  | nil =>
    obtain ⟨⟩ := hts
    exact ⟨[], .nil, rfl⟩
  | cons ha has ih =>
    obtain ⟨us, us', rfl, hus, hus'⟩ := Except.forall₂_append_iff.mp hts
    obtain ⟨a', ha', hbare⟩ := hitem ha hus
    obtain ⟨as', has', hbares⟩ := ih hus'
    exact ⟨a' :: as', .cons ha' has', by rw [List.map_cons, List.map_cons, hbare, hbares]⟩

theorem Definition.of_sameTexts {d : Schema.Definition} (h : Definition d ts)
    (hts : SameTexts ts ts') :
    ∃ d', Definition d' ts' ∧ d'.withoutPositions = d.withoutPositions := by
  cases h with
  | mk hkeyword hname hleft hfields hright =>
    obtain _ | ⟨hkeyword', _ | ⟨hname', _ | ⟨hleft', hts⟩⟩⟩ := hts
    obtain ⟨us, _, rfl, hus, _ | ⟨hright', ⟨⟩⟩⟩ := Except.forall₂_append_iff.mp hts
    obtain ⟨fields', hfields', hbare⟩ :=
      hfields.of_sameTexts Field.withoutPosition hus Field.of_sameTexts
    refine ⟨_, .mk (hkeyword'.trans hkeyword) (hname' ▸ hname) (hleft'.trans hleft) hfields'
      (hright'.trans hright), ?_⟩
    simp [Schema.Definition.withoutPositions, hname', hbare]

theorem Part.of_sameTexts {part : String} (h : Part part ts) (hts : SameTexts ts ts') :
    Part part ts' := by
  cases h with
  | mk hdot hname =>
    obtain _ | ⟨hdot', _ | ⟨hname', ⟨⟩⟩⟩ := hts
    rw [← hname'] at hname ⊢
    exact .mk (hdot'.trans hdot) hname

theorem Package.of_sameTexts {package : Option String} (h : Package package ts)
    (hts : SameTexts ts ts') : Package package ts' := by
  cases h with
  | none =>
    obtain ⟨⟩ := hts
    exact .none
  | some hkeyword hfirst hparts hsemicolon =>
    obtain _ | ⟨hkeyword', _ | ⟨hfirst', hts⟩⟩ := hts
    obtain ⟨us, _, rfl, hus, _ | ⟨hsemicolon', ⟨⟩⟩⟩ := Except.forall₂_append_iff.mp hts
    obtain ⟨parts', hparts', hbare⟩ := hparts.of_sameTexts id hus
      fun hpart hts => ⟨_, hpart.of_sameTexts hts, rfl⟩
    rw [List.map_id, List.map_id] at hbare
    subst hbare
    rw [← hfirst'] at hfirst ⊢
    exact .some (hkeyword'.trans hkeyword) hfirst hparts' (hsemicolon'.trans hsemicolon)

end Grammar

/-- Tokens of the same texts spell the same schema at other places. -/
theorem Grammar.of_sameTexts {s : Schema} {ts ts' : List Token} (h : Grammar s ts)
    (hts : SameTexts ts ts') : ∃ s', Grammar s' ts' ∧ s'.withoutPositions = s.withoutPositions := by
  cases h with
  | mk hpackage hdefinitions =>
    obtain ⟨us, us', rfl, hus, hus'⟩ := Except.forall₂_append_iff.mp hts
    obtain ⟨definitions', hdefinitions', hbare⟩ :=
      hdefinitions.of_sameTexts Definition.withoutPositions hus' Definition.of_sameTexts
    exact ⟨_, .mk (hpackage.of_sameTexts hus) hdefinitions', by simp [withoutPositions, hbare]⟩

namespace Token

open Text

/-! ### Layout -/

/-- What may stand between tokens: blanks, closed comments, and comments whose line ends. -/
inductive Trivia : List Char → Prop
  | nil : Trivia []
  | blank {c : Char} {more : List Char} (blank : isBlank c = true) (trivia : Trivia more) :
      Trivia (c :: more)
  | block {cs more : List Char} (unclosed : ¬ ['*', '/'] <:+: cs) (trivia : Trivia more) :
      Trivia ('/' :: '*' :: (cs ++ ['*', '/']) ++ more)
  | line {cs more : List Char} (line : '\n' ∉ cs) (trivia : Trivia more) :
      Trivia ('/' :: '/' :: cs ++ '\n' :: more)

/-- Texts one after the other, each with some layout behind it that is empty at most behind the
last. -/
inductive Joined : List String → List Char → Prop
  | nil : Joined [] []
  | cons {text : String} {texts : List String} {gap cs : List Char} (trivia : Trivia gap)
      (apart : texts ≠ [] → gap ≠ []) (others : Joined texts cs) :
      Joined (text :: texts) (text.toList ++ (gap ++ cs))

/-- Texts with layout between them, and perhaps in front and behind. -/
def LaidOut (texts : List String) (chars : List Char) : Prop :=
  ∃ lead cs, chars = lead ++ cs ∧ Trivia lead ∧ Joined texts cs

/-- Layout ends a word, and if it is empty what comes after it does. -/
theorem Trivia.breaks {gap cs : List Char} (h : Trivia gap) (hcs : gap = [] → Breaks cs) :
    Breaks (gap ++ cs) := by
  cases h with
  | nil => exact hcs rfl
  | blank blank => exact breaks_cons (isBreak_of_isBlank blank)
  | block => exact breaks_cons (by decide)
  | line => exact breaks_cons (by decide)

/-- Layout leaves no token. -/
theorem Trivia.scanFrom_eq {gap : List Char} (h : Trivia gap) (cs : List Char) (p : Position) :
    ∃ q, scanFrom 0 p (gap ++ cs) = scanFrom 0 q cs := by
  induction h generalizing p with
  | nil => exact ⟨p, rfl⟩
  | blank blank _ ih =>
    rw [List.cons_append, scanFrom_blank blank]
    exact ih _
  | block unclosed _ ih =>
    rw [List.append_assoc, scanFrom_of_gap (.block unclosed)]
    exact ih _
  | line line _ ih =>
    rw [List.append_assoc, scanFrom_of_gap (.line line (by simp)), List.cons_append,
      scanFrom_blank (by decide)]
    exact ih _

/-- What is a token somewhere is a token where layout comes after it. -/
theorem Joined.scanFrom_eq {texts : List String} {cs : List Char} (h : Joined texts cs)
    (htexts : ∀ text ∈ texts, ∃ rest, Piece true text.toList rest) (p : Position) :
    ∃ tokens, scanFrom 0 p cs = .ok tokens ∧ tokens.map (·.text) = texts ++ [""] := by
  induction h generalizing p with
  | nil => exact ⟨_, rfl, rfl⟩
  | @cons text texts gap cs trivia apart others ih =>
    obtain ⟨⟨rest, hpiece⟩, htexts⟩ := List.forall_mem_cons.mp htexts
    have hbreaks : Breaks (gap ++ cs) := by
      refine trivia.breaks fun hgap => ?_
      cases others with
      | nil => simp [Breaks]
      | cons => exact absurd hgap (apart (by simp))
    rw [scanFrom_of_token (hpiece.token_of_breaks hbreaks), String.ofList_toList]
    obtain ⟨q, hq⟩ := trivia.scanFrom_eq cs (text.toList.foldl Position.next p)
    obtain ⟨tokens, htokens, hmap⟩ := ih htexts q
    rw [hq, htokens]
    exact ⟨_, rfl, by rw [List.map_cons, hmap]; rfl⟩

theorem LaidOut.scan_eq {texts : List String} {text : String} (h : LaidOut texts text.toList)
    (htexts : ∀ text ∈ texts, ∃ rest, Piece true text.toList rest) :
    ∃ tokens, scan text = .ok tokens ∧ tokens.map (·.text) = texts ++ [""] := by
  obtain ⟨lead, cs, htext, htrivia, hjoined⟩ := h
  obtain ⟨q, hq⟩ := htrivia.scanFrom_eq cs .first
  rw [scan, htext, hq]
  exact hjoined.scanFrom_eq htexts q

end Token

namespace Schema

open Token (scan LaidOut)

theorem parse_eq_ok_iff {text : String} {ts : List Token} {p : Position} {s : Schema}
    (hscan : scan text = .ok (ts ++ [⟨"", p⟩])) (hts : ∀ t ∈ ts, t.text ≠ "") :
    parse text = .ok s ↔ Grammar s ts := by
  rw [parse, hscan]
  refine ofTokens_eq_ok_iff (fun t ht => ?_) rfl
  rw [Token.isEnd, Bool.eq_false_iff, Ne, String.isEmpty_iff]
  exact hts t ht

/-- The tokens of a text may be laid out in any other way: they are scanned again, and the schema
they spell is the same but for its places, or neither text has one. -/
theorem parse_laidOut {text text' : String} {tokens : List Token} (hscan : scan text = .ok tokens)
    (hlaid : LaidOut (tokens.dropLast.map (·.text)) text'.toList) :
    (∃ tokens', scan text' = .ok tokens' ∧ tokens'.map (·.text) = tokens.map (·.text)) ∧
      ((∃ s s', parse text = .ok s ∧ parse text' = .ok s' ∧
          s'.withoutPositions = s.withoutPositions) ∨
        ∃ e e', parse text = .error e ∧ parse text' = .error e') := by
  obtain ⟨ts, hpieces, rfl⟩ := Token.scan_eq_ok_iff.mp hscan
  rw [List.dropLast_concat] at hlaid
  obtain ⟨tokens', hscan', htexts⟩ := hlaid.scan_eq (List.forall_mem_map.mpr hpieces.exists_piece)
  obtain ⟨ts', last, rfl, hts', hlast⟩ := List.map_eq_append_iff.mp htexts
  obtain ⟨⟨_, q⟩, rfl, rfl⟩ := List.map_eq_singleton_iff.mp hlast
  refine ⟨⟨_, hscan', by rw [htexts, List.map_append]; rfl⟩, ?_⟩
  -- both texts are parsed as what their tokens spell, and the grammar can be read in either
  -- direction
  have hparse {s} : parse text = .ok s ↔ Grammar s ts := parse_eq_ok_iff hscan hpieces.text_ne
  have hne : ∀ t ∈ ts', t.text ≠ "" := by
    rw [← List.forall_mem_map (P := (· ≠ "")), hts', List.forall_mem_map]
    exact hpieces.text_ne
  have hparse' {s} : parse text' = .ok s ↔ Grammar s ts' := parse_eq_ok_iff hscan' hne
  cases hs : parse text with
  | ok s =>
    obtain ⟨s', hs', hbare⟩ := (hparse.mp hs).of_sameTexts (sameTexts_iff.mpr hts')
    exact .inl ⟨s, s', rfl, hparse'.mpr hs', hbare⟩
  | error e =>
    cases hs' : parse text' with
    | ok s' =>
      obtain ⟨s, hs'', -⟩ := (hparse'.mp hs').of_sameTexts (sameTexts_iff.mpr hts'.symm)
      rw [hparse.mpr hs''] at hs
      cases hs
    | error e' => exact .inr ⟨e, e', rfl, rfl⟩

/-- Comments that look closed or open where they are not. -/
theorem parse_laidOut_comments :
    let text := "enum A\x7bB=-1;\x7d"
    let text' := "enum//*/\nA/*/ */\x7b B\t=/***/-1\n;/*//**/\x7d"
    ∃ tokens, scan text = .ok tokens ∧ LaidOut (tokens.dropLast.map (·.text)) text'.toList ∧
      (∃ tokens', scan text' = .ok tokens' ∧ tokens'.map (·.text) = tokens.map (·.text)) ∧
        ((∃ s s', parse text = .ok s ∧ parse text' = .ok s' ∧
            s'.withoutPositions = s.withoutPositions) ∨
          ∃ e e', parse text = .error e ∧ parse text' = .error e') := by
  intro text text'
  have hscan : scan text =
      .ok [⟨"enum", ⟨1, 1⟩⟩, ⟨"A", ⟨1, 6⟩⟩, ⟨"\x7b", ⟨1, 7⟩⟩, ⟨"B", ⟨1, 8⟩⟩, ⟨"=", ⟨1, 9⟩⟩,
        ⟨"-1", ⟨1, 10⟩⟩, ⟨";", ⟨1, 12⟩⟩, ⟨"\x7d", ⟨1, 13⟩⟩, ⟨"", ⟨1, 14⟩⟩] := by
    decide +kernel
  have hblank (c : Char) (hc : Text.isBlank c = true) : Token.Trivia [c] := .blank hc .nil
  have hjoined : Token.Joined ["enum", "A", "\x7b", "B", "=", "-1", ";", "\x7d"] _ :=
    .cons (@Token.Trivia.line ['*', '/'] [] (by decide) .nil) (by simp) <|
    .cons (@Token.Trivia.block ['/', ' '] [] (by decide) .nil) (by simp) <|
    .cons (hblank ' ' rfl) (by simp) <| .cons (hblank '\t' rfl) (by simp) <|
    .cons (@Token.Trivia.block ['*'] [] (by decide) .nil) (by simp) <|
    .cons (hblank '\n' rfl) (by simp) <|
    .cons (@Token.Trivia.block ['/', '/', '*'] [] (by decide) .nil) (by simp) <|
    .cons .nil (by simp) .nil
  have hlaid : LaidOut ["enum", "A", "\x7b", "B", "=", "-1", ";", "\x7d"] text'.toList :=
    ⟨[], _, by decide +kernel, .nil, hjoined⟩
  exact ⟨_, hscan, hlaid, parse_laidOut hscan hlaid⟩

end Schema

end WireSchema
