import WireSchema.Proofs.Schema.Grammar
import WireSchema.Proofs.Schema.Scanning
import WireSchema.Schema.Printer

/-! Canonical text is read back. What a schema is printed as is scanned into tokens that spell the
same schema at other places of a text: a field on its line, a definition from its fields, the
definitions one after the other. -/

namespace WireSchema

open Schema Token

namespace Grammar

theorem breaks_flatMap {α : Type} {chars : α → List Char}
    (hbreaks : ∀ {a rest}, Breaks (chars a ++ rest))
    {as : List α} {rest : List Char} (hrest : Breaks rest) : Breaks (as.flatMap chars ++ rest) := by
  cases as with
  | nil => exact hrest
  | cons a as =>
    rw [List.flatMap_cons, List.append_assoc]
    exact hbreaks

/-- Items printed one after the other, each beginning with a break, are scanned one after the
other. -/
theorem Sequence.scans {α : Type} {item : Nat → α → List Token → Prop} {bare : α → α}
    {place : Nat} {as : List α} {ts : List Token} (h : Sequence item place as ts)
    (chars : α → List Char) (hbreaks : ∀ {a rest}, Breaks (chars a ++ rest))
    (hitem : ∀ {place a ts}, item place a ts →
      Scans (chars a) fun us => ∃ a', item place a' us ∧ bare a' = bare a) :
    Scans (as.flatMap chars) fun us =>
      ∃ as', Sequence item place as' us ∧ as'.map bare = as.map bare := by
  induction h with
  | nil =>
    refine Scans.nil.mono ?_
    rintro _ rfl
    exact ⟨[], .nil, rfl⟩
  | @cons place a as ts us ha has ih =>
    refine ((hitem ha).append ih (breaks_flatMap hbreaks)).mono ?_
    rintro _ ⟨us, us', rfl, ⟨a', ha', hbare⟩, as', has', hbares⟩
    exact ⟨a' :: as', .cons ha' has', by rw [List.map_cons, List.map_cons, hbare, hbares]⟩

/-! ### Fields -/

theorem FieldType.scans {type : String} {isArray : Bool} {ts : List Token}
    (h : FieldType type isArray ts) :
    Scans (type ++ if isArray then "[]" else "").toList (FieldType type isArray) := by
  cases h with
  | @one t htype =>
    rw [if_neg (by simp), String.append_empty, ← List.append_nil t.text.toList]
    refine (Scans.name htype id .nil).mono ?_
    rintro _ ⟨t', _, rfl, ht, rfl⟩
    rw [← ht] at htype ⊢
    exact .one htype
  | @many t left right htype =>
    rw [if_pos rfl, String.toList_append]
    refine (Scans.name htype (fun _ => breaks_cons (by decide)) (.mark rfl (.mark rfl .nil))).mono
      ?_
    rintro _ ⟨t', _, rfl, ht, left', _, rfl, hleft, right', _, rfl, hright, rfl⟩
    rw [← ht] at htype ⊢
    exact .many htype hleft hright

theorem Deprecation.scans {isDeprecated : Bool} :
    Scans (if isDeprecated then " [deprecated]" else "").toList (Deprecation isDeprecated) := by
  cases isDeprecated with
  | false =>
    refine Scans.nil.mono ?_
    rintro _ rfl
    exact .absent
  | true =>
    have hword : Token.isName "deprecated" = true := by decide
    refine (Scans.blank (c := ' ') rfl (.mark (c := '[') rfl
      (.name hword (fun _ => breaks_cons (by decide)) (.mark (c := ']') rfl .nil)))).mono ?_
    rintro _ ⟨left, _, rfl, hleft, word, _, rfl, hword, right, _, rfl, hright, rfl⟩
    exact .present hleft hword hright

theorem integer_of_text_eq {t : Token} {n : Int32} (h : t.text = toString n.toInt) :
    Integer t n := by
  have hlow := n.le_toInt
  have hhigh := n.toInt_lt
  rw [Integer, h]
  refine ⟨isInteger_toString _, ?_⟩
  rw [int32?_toString (by omega), Int32.ofInt_toInt]

theorem Field.scans {kind : Kind} {place : Nat} {f : Schema.Field} {ts : List Token}
    (h : Field kind place f ts) : Scans (f.line kind).toList fun us =>
      ∃ f', Field kind place f' us ∧ f'.withoutPosition = f.withoutPosition := by
  cases h with
  | @entry _ name equals integer semicolon value hname =>
    have hline : (Field.line ⟨name.text, name.position, none, false, false, value⟩ .enum).toList =
        ' ' :: ' ' :: (name.text.toList ++ ' ' :: '=' :: ' ' ::
          ((toString value.toInt).toList ++ [';', '\n'])) := by
      show ("  " ++ name.text ++ " = " ++ toString value.toInt ++ ";\n").toList = _
      simp [String.toList_append]
    rw [hline]
    refine (Scans.blank rfl (.blank rfl (.name hname (fun _ => breaks_cons (by decide))
      (.blank rfl (.mark rfl (.blank rfl (.integer (isInteger_toString _)
        (fun _ => breaks_cons (by decide)) (.mark rfl (.blank rfl .nil))))))))).mono ?_
    rintro _ ⟨name', _, rfl, hname', equals', _, rfl, hequals, integer', _, rfl, hinteger,
      semicolon', _, rfl, hsemicolon, rfl⟩
    rw [← hname'] at hname
    refine ⟨_, .entry hname hequals (integer_of_text_eq hinteger) hsemicolon, ?_⟩
    simp [Schema.Field.withoutPosition, hname']
  | @struct _ type isArray types name semicolon htype hname =>
    have hline :
        (Field.line ⟨name.text, name.position, some type, isArray, false, Int32.ofInt (place + 1)⟩
          .struct).toList = ' ' :: ' ' :: ((type ++ if isArray then "[]" else "").toList ++
            ' ' :: (name.text.toList ++ [';', '\n'])) := by
      show ("  " ++ (type ++ if isArray then "[]" else "") ++ " " ++ name.text ++ ";\n").toList = _
      simp [String.toList_append]
    rw [hline]
    refine (Scans.blank rfl (.blank rfl (htype.scans.append (.blank rfl (.name hname
      (fun _ => breaks_cons (by decide)) (.mark rfl (.blank rfl .nil))))
        fun _ => breaks_cons (by decide)))).mono ?_
    rintro _ ⟨types', _, rfl, htype', name', _, rfl, hname', semicolon', _, rfl, hsemicolon, rfl⟩
    rw [← hname'] at hname
    refine ⟨_, .struct htype' hname hsemicolon, ?_⟩
    simp [Schema.Field.withoutPosition, hname']
  | @message _ type isArray isDeprecated types marks name equals integer semicolon value htype
      hname =>
    have hline : (Field.line ⟨name.text, name.position, some type, isArray, isDeprecated, value⟩
        .message).toList = ' ' :: ' ' :: ((type ++ if isArray then "[]" else "").toList ++
          ' ' :: (name.text.toList ++ ' ' :: '=' :: ' ' :: ((toString value.toInt).toList ++
            ((if isDeprecated then " [deprecated]" else "").toList ++ [';', '\n'])))) := by
      show ("  " ++ (type ++ if isArray then "[]" else "") ++ " " ++ name.text ++ " = " ++
        toString value.toInt ++ (if isDeprecated then " [deprecated]" else "") ++ ";\n").toList = _
      simp [String.toList_append]
    have hmark : ∀ {rest}, Breaks rest → Breaks
        (((if isDeprecated then " [deprecated]" else "").toList ++ [';', '\n']) ++ rest) := by
      intro rest hrest
      cases isDeprecated <;> exact breaks_cons (by decide)
    rw [hline]
    refine (Scans.blank rfl (.blank rfl (htype.scans.append (.blank rfl (.name hname
      (fun _ => breaks_cons (by decide)) (.blank rfl (.mark rfl (.blank rfl
        (.integer (isInteger_toString _) hmark
          (Deprecation.scans.append (.mark rfl (.blank rfl .nil))
            fun _ => breaks_cons (by decide)))))))) fun _ => breaks_cons (by decide)))).mono ?_
    rintro _ ⟨types', _, rfl, htype', name', _, rfl, hname', equals', _, rfl, hequals,
      integer', _, rfl, hinteger, marks', _, rfl, hmark, semicolon', _, rfl, hsemicolon, rfl⟩
    rw [← hname'] at hname
    refine ⟨_, .message htype' hname hequals (integer_of_text_eq hinteger) hmark hsemicolon, ?_⟩
    simp [Schema.Field.withoutPosition, hname']

/-! ### Definitions -/

theorem breaks_line {f : Schema.Field} {kind : Kind} {rest : List Char} :
    Breaks ((f.line kind).toList ++ rest) := by
  have hline : ∃ cs, (f.line kind).toList = ' ' :: cs := by
    cases kind with
    | enum =>
      show ∃ cs, ("  " ++ f.name ++ " = " ++ toString f.value.toInt ++ ";\n").toList = ' ' :: cs
      simp [String.toList_append]
    | struct =>
      show ∃ cs, ("  " ++ f.typeText ++ " " ++ f.name ++ ";\n").toList = ' ' :: cs
      simp [String.toList_append]
    | message =>
      show ∃ cs, ("  " ++ f.typeText ++ " " ++ f.name ++ " = " ++ toString f.value.toInt ++
        (if f.isDeprecated then " [deprecated]" else "") ++ ";\n").toList = ' ' :: cs
      simp [String.toList_append]
  obtain ⟨cs, hline⟩ := hline
  rw [hline]
  exact breaks_cons (by decide)

theorem isName_keyword (kind : Kind) : Token.isName kind.keyword = true := by
  cases kind <;> decide

theorem Definition.scans {d : Schema.Definition} {ts : List Token} (h : Definition d ts) :
    Scans d.print.toList fun us =>
      ∃ d', Definition d' us ∧ d'.withoutPositions = d.withoutPositions := by
  cases h with
  | @mk kind keyword name left right fields ts hkeyword hname hleft hfields hright =>
    have hprint : (Definition.print ⟨name.text, name.position, kind, fields⟩).toList =
        kind.keyword.toList ++ ' ' :: (name.text.toList ++ ' ' :: '\x7b' :: '\n' ::
          (fields.flatMap (fun f => (f.line kind).toList) ++ ['\x7d', '\n'])) := by
      show ((kind.keyword ++ " " ++ name.text ++ " \x7b\n") ++
        String.join (fields.map (·.line kind)) ++ "\x7d\n").toList = _
      simp [String.toList_append, List.flatMap_map]
    have hscans := hfields.scans (fun f => (f.line kind).toList) breaks_line Field.scans
    rw [hprint]
    refine (Scans.name (isName_keyword kind) (fun _ => breaks_cons (by decide)) (.blank rfl
      (.name hname (fun _ => breaks_cons (by decide)) (.blank rfl (.mark rfl (.blank rfl
        (hscans.append (.mark rfl (.blank rfl .nil)) fun _ => breaks_cons (by decide)))))))).mono ?_
    rintro _ ⟨keyword', _, rfl, hkeyword', name', _, rfl, hname', left', _, rfl, hleft', us, _, rfl,
      ⟨fields', hfields', hbare⟩, right', _, rfl, hright', rfl⟩
    rw [← hname'] at hname
    refine ⟨_, .mk hkeyword' hname hleft' hfields' hright', ?_⟩
    simp [Schema.Definition.withoutPositions, hname', hbare]

/-! ### Schemas -/

theorem toList_intercalate_cons {sep text : String} {texts : List String} :
    (sep.intercalate (text :: texts)).toList =
      text.toList ++ texts.flatMap fun text => sep.toList ++ text.toList := by
  induction texts generalizing text with
  | nil => simp
  | cons text' texts ih =>
    rw [String.intercalate_cons_cons, String.toList_append, String.toList_append, ih,
      List.flatMap_cons, List.append_assoc, List.append_assoc]

theorem Part.scans {part : String} {ts : List Token} (h : Part part ts) :
    Scans (".".toList ++ part.toList) fun us => ∃ part', Part part' us ∧ id part' = id part := by
  cases h with
  | @mk dot name hdot hname =>
    have hscans := Scans.mark (c := '.') rfl (.name hname id .nil)
    rw [List.append_nil] at hscans
    refine hscans.mono ?_
    rintro _ ⟨dot', _, rfl, hdot', name', _, rfl, hname', rfl⟩
    rw [← hname'] at hname
    exact ⟨_, .mk hdot' hname, hname'⟩

theorem Package.scans {first : Token} {parts : List String} {ts : List Token}
    (hfirst : Token.isName first.text = true) (hparts : Sequence (fun _ => Part) 0 parts ts) :
    Scans ("package " ++ ".".intercalate (first.text :: parts) ++ ";\n").toList
      (Package (Option.some (".".intercalate (first.text :: parts)))) := by
  have hprint : ("package " ++ ".".intercalate (first.text :: parts) ++ ";\n").toList =
      "package".toList ++ ' ' :: (first.text.toList ++
        (parts.flatMap (fun part => ".".toList ++ part.toList) ++ [';', '\n'])) := by
    rw [String.toList_append, String.toList_append, toList_intercalate_cons]
    simp
  have hword : Token.isName "package" = true := by decide
  have hdot : ∀ {part : String} {rest}, Breaks (".".toList ++ part.toList ++ rest) :=
    breaks_cons (by decide)
  have hbreaks : ∀ {rest}, Breaks rest → Breaks
      ((parts.flatMap (fun part => ".".toList ++ part.toList) ++ [';', '\n']) ++ rest) := by
    intro rest hrest
    rw [List.append_assoc]
    exact breaks_flatMap hdot (breaks_cons (by decide))
  rw [hprint]
  refine (Scans.name hword (fun _ => breaks_cons (by decide)) (.blank rfl (.name hfirst hbreaks
    ((hparts.scans _ hdot Part.scans).append (.mark rfl (.blank rfl .nil))
      fun _ => breaks_cons (by decide))))).mono ?_
  rintro _ ⟨keyword', _, rfl, hkeyword', first', _, rfl, hfirst', us, _, rfl,
    ⟨parts', hparts', hbare⟩, semicolon', _, rfl, hsemicolon', rfl⟩
  rw [List.map_id, List.map_id] at hbare
  rw [← hfirst'] at hfirst ⊢
  subst hbare
  exact .some hkeyword' hfirst hparts' hsemicolon'

end Grammar

theorem Grammar.scans {s : Schema} {ts : List Token} (h : Grammar s ts) :
    Scans s.print.toList fun us =>
      ∃ s', Grammar s' us ∧ s'.withoutPositions = s.withoutPositions := by
  -- every definition but the first block of the text stands behind an empty line
  let chars (d : Schema.Definition) : List Char := "\n".toList ++ d.print.toList
  have hchars : ∀ ds : List Schema.Definition, (ds.map Definition.print).flatMap
      (fun text => "\n".toList ++ text.toList) = ds.flatMap chars := fun ds => List.flatMap_map ..
  have hbreaks : ∀ {d rest}, Breaks (chars d ++ rest) := breaks_cons (by decide)
  have hline : ∀ {d us}, Definition d us → Scans (chars d) fun us =>
      ∃ d', Definition d' us ∧ d'.withoutPositions = d.withoutPositions :=
    fun hd => .blank rfl hd.scans
  cases h with
  | @mk package ds ts us hpackage hdefinitions =>
    cases hpackage with
    | none =>
      cases hdefinitions with
      | nil =>
        refine Scans.nil.mono ?_
        rintro _ rfl
        exact ⟨⟨none, []⟩, .mk .none .nil, rfl⟩
      | @cons _ d ds _ us hd hds =>
        have hprint : (print ⟨none, d :: ds⟩).toList = d.print.toList ++ ds.flatMap chars := by
          rw [← hchars]
          exact toList_intercalate_cons
        rw [hprint]
        refine (hd.scans.append (hds.scans chars hbreaks hline) (breaks_flatMap hbreaks)).mono ?_
        rintro _ ⟨us, us', rfl, ⟨d', hd', hbare⟩, ds', hds', hbares⟩
        rw [← List.nil_append (us ++ us')]
        refine ⟨⟨none, d' :: ds'⟩, .mk .none (.cons hd' hds'), ?_⟩
        simp [withoutPositions, hbare, hbares]
    | @some keyword first semicolon parts ts hkeyword hfirst hparts hsemicolon =>
      have hprint : (print ⟨some (".".intercalate (first.text :: parts)), ds⟩).toList =
          ("package " ++ ".".intercalate (first.text :: parts) ++ ";\n").toList ++
          ds.flatMap chars := by
        rw [← hchars]
        exact toList_intercalate_cons
      rw [hprint]
      refine ((Package.scans hfirst hparts).append (hdefinitions.scans chars hbreaks hline)
        (breaks_flatMap hbreaks)).mono ?_
      rintro _ ⟨us, us', rfl, hpackage', ds', hds', hbares⟩
      refine ⟨⟨_, ds'⟩, .mk hpackage' hds', ?_⟩
      simp [withoutPositions, hbares]

namespace Schema

/-- Places are not printed. -/
theorem print_withoutPositions (s : Schema) : s.withoutPositions.print = s.print := by
  have hdefinition : ∀ d : Definition, d.withoutPositions.print = d.print := by
    intro d
    rw [Definition.print, Definition.print, Definition.withoutPositions, List.map_map]
    rfl
  rw [print, print, withoutPositions, List.map_map]
  simp only [Function.comp_def, hdefinition]

/-- A schema that was parsed is read back from its canonical text but for its places in the text,
and the canonical text of what is read back is the same. -/
theorem parse_print {text : String} {s : Schema} (h : parse text = .ok s) :
    ∃ s', parse s.print = .ok s' ∧ s'.withoutPositions = s.withoutPositions ∧
      s'.print = s.print := by
  obtain ⟨ts, hgrammar⟩ := grammar_of_parse h
  obtain ⟨body, q, ⟨s', hgrammar', hbare⟩, hends, hscan⟩ :=
    hgrammar.scans [] .first (by simp [Breaks])
  rw [List.append_nil] at hscan
  refine ⟨s', ?_, hbare, ?_⟩
  · have htokens : scan s.print = .ok (body ++ [⟨"", q⟩]) := hscan
    rw [parse, htokens]
    exact (ofTokens_eq_ok_iff hends rfl).mpr hgrammar'
  · rw [← print_withoutPositions, hbare, print_withoutPositions]

/-- Keywords as names and types, the least value of an entry, and an id with leading zeros. -/
theorem parse_print_keywords :
    let text := "package a.enum; // first
enum package { deprecated = -2147483648; }
message M { package[] struct = 007 [deprecated]; }"
    let s : Schema := ⟨some "a.enum", [
      ⟨"package", ⟨2, 6⟩, .enum, [⟨"deprecated", ⟨2, 16⟩, none, false, false, -2147483648⟩]⟩,
      ⟨"M", ⟨3, 9⟩, .message, [⟨"struct", ⟨3, 23⟩, some "package", true, true, 7⟩]⟩]⟩
    parse text = .ok s ∧
      ∃ s', parse s.print = .ok s' ∧ s'.withoutPositions = s.withoutPositions ∧
        s'.print = s.print := by
  intro text s
  have htext : parse text = .ok s := by decide +kernel
  exact ⟨htext, parse_print htext⟩

end Schema

end WireSchema
