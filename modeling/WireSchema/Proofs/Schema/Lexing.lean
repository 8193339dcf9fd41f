import Mathlib.Data.List.DropRight
import WireSchema.Proofs.Schema.Scanning

/-! What a text is cut into. `Piece` says what a token, a run of white space and a comment are,
without the scanner: each is told by its characters and by what comes after it. `Pieces` are put one
after another, and the tokens among them stand where `Position.after` says, which counts the lines
and the bytes of all that is before. A text is scanned exactly when it is cut into pieces up to its
end, and otherwise blamed at the first place where no piece begins. -/

namespace WireSchema

/-! ### Places -/

/-- The place after some characters: one line more than there are newlines, and one column more than
there are bytes after the last of them. -/
def Position.after (before : List Char) : Position :=
  ⟨1 + before.count '\n', 1 + ((before.rtakeWhile (· ≠ '\n')).map Char.utf8Size).sum⟩

theorem Position.next_after (before : List Char) (c : Char) :
    (Position.after before).next c = .after (before ++ [c]) := by
  by_cases hc : c = '\n'
  · subst hc
    simp [Position.next, Position.after, Nat.add_assoc]
  · simp [Position.next, Position.after, hc, Nat.add_assoc]

theorem Position.foldl_next_after (before cs : List Char) :
    cs.foldl Position.next (.after before) = .after (before ++ cs) := by
  induction cs generalizing before with
  | nil => rw [List.append_nil]; rfl
  | cons c cs ih => rw [List.foldl_cons, next_after, ih, List.append_assoc]; rfl

namespace Token

open Text

/-! ### Pieces -/

/-- Some characters are one piece of a text where others come after them: a token, or what may stand
between tokens. -/
inductive Piece : Bool → List Char → List Char → Prop
  | natural {c : Char} {cs rest : List Char} (first : isDigit c = true)
      (others : ∀ c ∈ cs, isDigit c = true) (breaks : Breaks rest) : Piece true (c :: cs) rest
  | negative {digits rest : List Char} (nonempty : digits ≠ [])
      (digit : ∀ c ∈ digits, isDigit c = true) (breaks : Breaks rest) :
      Piece true ('-' :: digits) rest
  | mark {c : Char} {rest : List Char} (mark : isMark c = true) : Piece true [c] rest
  | name {c : Char} {cs rest : List Char} (first : isNameStart c = true)
      (others : ∀ c ∈ cs, isNameRest c = true) (breaks : Breaks rest) : Piece true (c :: cs) rest
  | blanks {c : Char} {cs rest : List Char} (first : isBlank c = true)
      (others : ∀ c ∈ cs, isBlank c = true) (longest : ∀ c ∈ rest.head?, isBlank c = false) :
      Piece false (c :: cs) rest
  | line {cs rest : List Char} (line : '\n' ∉ cs) (longest : ∀ c ∈ rest.head?, c = '\n') :
      Piece false ('/' :: '/' :: cs) rest
  | block {cs rest : List Char} (unclosed : ¬ ['*', '/'] <:+: cs) :
      Piece false ('/' :: '*' :: (cs ++ ['*', '/'])) rest

theorem Piece.ne_nil {b : Bool} {cs rest : List Char} (h : Piece b cs rest) : cs ≠ [] := by
  cases h <;> simp

/-- Only what comes right after a piece can matter to it. -/
theorem Piece.token_of_breaks {cs rest rest' : List Char} (h : Piece true cs rest)
    (hrest : Breaks rest') : Piece true cs rest' := by
  cases h with
  | natural first others => exact .natural first others hrest
  | negative nonempty digit => exact .negative nonempty digit hrest
  | mark mark => exact .mark mark
  | name first others => exact .name first others hrest

/-! ### What the scanner takes for a piece -/

theorem commentLength?_append {cs rest : List Char} (hcs : ¬ ['*', '/'] <:+: cs) :
    commentLength? (cs ++ '*' :: '/' :: rest) = some (cs.length + 2) := by
  induction cs with
  | nil => rfl
  | cons c cs ih =>
    rw [List.infix_cons_iff, not_or] at hcs
    have hnot : ∀ tail, c = '*' → cs ++ '*' :: '/' :: rest = '/' :: tail → False := by
      rintro tail rfl heq
      cases cs with
      | nil => simp at heq
      | cons d cs =>
        obtain rfl := (List.cons.inj heq).1
        exact hcs.1 ⟨cs, rfl⟩
    rw [List.cons_append, commentLength?.eq_2 _ _ hnot, ih hcs.2]
    rfl

theorem of_commentLength?_eq_some {body : List Char} {n : Nat} (h : commentLength? body = some n) :
    ∃ cs rest, body = cs ++ '*' :: '/' :: rest ∧ cs.length + 2 = n ∧ ¬ ['*', '/'] <:+: cs := by
  fun_induction commentLength? body generalizing n with
  | case1 rest =>
    cases h
    exact ⟨[], rest, rfl, rfl, by simp⟩
  | case2 c body hnot ih =>
    obtain ⟨m, hm, rfl⟩ := Option.map_eq_some_iff.mp h
    obtain ⟨cs, rest, rfl, rfl, hcs⟩ := ih hm
    refine ⟨c :: cs, rest, rfl, by simp only [List.length_cons, Nat.add_right_comm], ?_⟩
    rw [List.infix_cons_iff, not_or]
    refine ⟨?_, hcs⟩
    rintro ⟨tail, htail⟩
    obtain ⟨rfl, rfl⟩ := List.cons.inj htail
    exact hnot _ rfl rfl
  | case3 => cases h

theorem of_wordLength?_eq_some {p : Char → Bool} {cs : List Char} {n : Nat}
    (h : wordLength? p cs = some n) :
    ∃ word rest, cs = word ++ rest ∧ word.length = n ∧ (∀ c ∈ word, p c = true) ∧ Breaks rest := by
  rw [wordLength?] at h
  split at h
  · rename_i hends
    refine ⟨cs.takeWhile p, cs.dropWhile p, List.takeWhile_append_dropWhile.symm, Option.some.inj h,
      fun c => List.mem_takeWhile_imp, ?_⟩
    cases hrest : cs.dropWhile p with
    | nil => simp [Breaks]
    | cons c rest =>
      rw [hrest] at hends
      exact breaks_cons (by rwa [isBreak_eq])
  · cases h

theorem lexeme?_slash (rest : List Char) : lexeme? '/' rest = match rest with
    | '/' :: line => some (false, (line.takeWhile (· ≠ '\n')).length + 1)
    | '*' :: body => (commentLength? body).map fun n => (false, n + 1)
    | _ => none := by
  rfl

theorem lexeme?_line (line : List Char) :
    lexeme? '/' ('/' :: line) = some (false, (line.takeWhile (· ≠ '\n')).length + 1) := by
  rfl

theorem lexeme?_block (body : List Char) :
    lexeme? '/' ('*' :: body) = (commentLength? body).map fun n => (false, n + 1) := by
  rfl

/-- The scanner finds each piece with its length. -/
theorem Piece.lexeme?_eq {b : Bool} {c : Char} {cs rest : List Char} (h : Piece b (c :: cs) rest) :
    lexeme? c (cs ++ rest) = some (b, cs.length) := by
  cases h with
  | natural first others breaks => exact lexeme?_digits first others breaks
  | negative nonempty digit breaks => exact lexeme?_minus nonempty digit breaks
  | mark mark => exact lexeme?_mark mark
  | name first others breaks => exact lexeme?_name first others breaks
  | blanks first others longest =>
    rw [lexeme?_blank first, takeWhile_append_of_head? others longest]
  | @line line _ inside longest =>
    have htake : (line ++ rest).takeWhile (· ≠ '\n') = line := by
      refine takeWhile_append_of_head? (fun c hc => ?_) fun c hc => ?_
      · rw [decide_eq_true_eq]
        rintro rfl
        exact inside hc
      · simp [longest c hc]
    rw [List.cons_append, lexeme?_line, htake]
    rfl
  | @block body _ unclosed =>
    rw [List.cons_append, lexeme?_block, List.append_assoc, List.cons_append, List.cons_append,
      List.nil_append, commentLength?_append unclosed]
    simp

theorem head?_dropWhile {p : Char → Bool} {cs : List Char} :
    ∀ c ∈ (cs.dropWhile p).head?, p c = false := by
  intro c hc
  rw [← List.find?_not_eq_head?_dropWhile] at hc
  simpa using List.find?_some hc

theorem piece_of_lexeme?_slash {b : Bool} {rest : List Char} {n : Nat}
    (h : lexeme? '/' rest = some (b, n)) :
    ∃ cs tail, rest = cs ++ tail ∧ cs.length = n ∧ Piece b ('/' :: cs) tail := by
  rw [lexeme?_slash] at h
  split at h
  · rename_i line
    cases h
    refine ⟨'/' :: line.takeWhile (· ≠ '\n'), line.dropWhile (· ≠ '\n'), ?_, rfl, .line ?_ ?_⟩
    · rw [List.cons_append, List.takeWhile_append_dropWhile]
    · intro hmem
      simpa using List.mem_takeWhile_imp hmem
    · intro c hc
      simpa using head?_dropWhile c hc
  · obtain ⟨m, hm, heq⟩ := Option.map_eq_some_iff.mp h
    cases heq
    obtain ⟨cs, tail, rfl, rfl, hcs⟩ := of_commentLength?_eq_some hm
    exact ⟨'*' :: (cs ++ ['*', '/']), tail, by simp, by simp, .block hcs⟩
  · cases h

/-- What the scanner finds is a piece. -/
theorem piece_of_lexeme? {b : Bool} {c : Char} {rest : List Char} {n : Nat}
    (h : lexeme? c rest = some (b, n)) :
    ∃ cs tail, rest = cs ++ tail ∧ cs.length = n ∧ Piece b (c :: cs) tail := by
  have hword {p : Char → Bool} (h : (wordLength? p rest).map (true, ·) = some (b, n)) :
      b = true ∧ ∃ word tail, rest = word ++ tail ∧ word.length = n ∧ (∀ c ∈ word, p c = true) ∧
      Breaks tail := by
    obtain ⟨m, hm, heq⟩ := Option.map_eq_some_iff.mp h
    obtain ⟨rfl, rfl⟩ := Prod.mk.inj heq
    exact ⟨rfl, of_wordLength?_eq_some hm⟩
  by_cases hslash : c = '/'
  · rw [hslash] at h ⊢
    exact piece_of_lexeme?_slash h
  unfold lexeme? at h
  rw [if_neg hslash] at h
  -- the cases are those of the scanner, in its order
  split at h
  · rename_i hc
    subst hc
    split at h
    · cases h
    · rename_i hdigits
      obtain ⟨rfl, word, tail, rfl, hn, hall, hbreaks⟩ := hword h
      refine ⟨word, tail, rfl, hn, .negative ?_ hall hbreaks⟩
      rintro rfl
      refine hdigits (List.isEmpty_iff.mpr (takeWhile_append_of_head? (by simp) fun c hc => ?_))
      exact isDigit_eq_false_of_isBreak (hbreaks c hc)
  split at h
  · rename_i hc
    obtain ⟨rfl, word, tail, rfl, hn, hall, hbreaks⟩ := hword h
    exact ⟨word, tail, rfl, hn, .natural hc hall hbreaks⟩
  split at h
  · rename_i hc
    cases h
    exact ⟨[], rest, rfl, rfl, .mark hc⟩
  split at h
  · rename_i hc
    obtain ⟨rfl, word, tail, rfl, hn, hall, hbreaks⟩ := hword h
    exact ⟨word, tail, rfl, hn, .name hc hall hbreaks⟩
  split at h
  · rename_i hc
    cases h
    exact ⟨_, _, List.takeWhile_append_dropWhile.symm, rfl,
      .blanks hc (fun c => List.mem_takeWhile_imp) head?_dropWhile⟩
  · cases h

/-! ### Cutting a text -/

/-- No piece begins here. -/
def Stuck (chars : List Char) : Prop := ∀ b cs rest, chars = cs ++ rest → ¬ Piece b cs rest

/-- Some characters are pieces one after another, where `before` stands in front of them and `rest`
after them. The tokens among the pieces are listed with their places. -/
inductive Pieces : List Char → List Char → List Token → List Char → Prop
  | nil {before rest : List Char} : Pieces before [] [] rest
  | token {before cs others rest : List Char} {ts : List Token}
      (piece : Piece true cs (others ++ rest)) (pieces : Pieces (before ++ cs) others ts rest) :
      Pieces before (cs ++ others) (⟨String.ofList cs, .after before⟩ :: ts) rest
  | gap {before cs others rest : List Char} {ts : List Token}
      (piece : Piece false cs (others ++ rest)) (pieces : Pieces (before ++ cs) others ts rest) :
      Pieces before (cs ++ others) ts rest

/-- From any place on there are pieces until no more begin. -/
theorem exists_pieces (before chars : List Char) :
    ∃ cs ts rest, chars = cs ++ rest ∧ Pieces before cs ts rest ∧ Stuck rest := by
  induction hn : chars.length using Nat.strong_induction_on generalizing before chars with
  | _ n ih =>
    subst hn
    by_cases hstuck : Stuck chars
    · exact ⟨[], [], chars, rfl, .nil, hstuck⟩
    simp only [Stuck, not_forall, not_not] at hstuck
    obtain ⟨b, cs, rest, rfl, hpiece⟩ := hstuck
    have hlength : rest.length < (cs ++ rest).length := by
      have := List.length_pos_iff.mpr hpiece.ne_nil
      rw [List.length_append]
      omega
    obtain ⟨others, ts, rest, rfl, hpieces, hstuck⟩ := ih _ hlength (before ++ cs) rest rfl
    have hchars := (List.append_assoc cs others rest).symm
    cases b with
    | true => exact ⟨_, _, rest, hchars, .token hpiece hpieces, hstuck⟩
    | false => exact ⟨_, _, rest, hchars, .gap hpiece hpieces, hstuck⟩

theorem Pieces.exists_piece {before cs rest : List Char} {ts : List Token}
    (h : Pieces before cs ts rest) : ∀ t ∈ ts, ∃ rest, Piece true t.text.toList rest := by
  induction h with
  | nil => simp
  | token piece pieces ih =>
    refine List.forall_mem_cons.mpr ⟨?_, ih⟩
    rw [String.toList_ofList]
    exact ⟨_, piece⟩
  | gap piece pieces ih => exact ih

theorem Pieces.text_ne {before cs rest : List Char} {ts : List Token}
    (h : Pieces before cs ts rest) : ∀ t ∈ ts, t.text ≠ "" := by
  intro t ht hempty
  obtain ⟨rest, hpiece⟩ := h.exists_piece t ht
  exact hpiece.ne_nil (String.toList_eq_nil_iff.mpr hempty)

theorem scanFrom_of_token {cs rest : List Char} {p : Position} (h : Piece true cs rest) :
    scanFrom 0 p (cs ++ rest) =
      (scanFrom 0 (cs.foldl Position.next p) rest).map (⟨String.ofList cs, p⟩ :: ·) := by
  obtain ⟨c, cs, rfl⟩ := List.exists_cons_of_ne_nil h.ne_nil
  exact scanFrom_token h.lexeme?_eq

theorem scanFrom_of_gap {cs rest : List Char} {p : Position} (h : Piece false cs rest) :
    scanFrom 0 p (cs ++ rest) = scanFrom 0 (cs.foldl Position.next p) rest := by
  obtain ⟨c, cs, rfl⟩ := List.exists_cons_of_ne_nil h.ne_nil
  rw [List.cons_append, scanFrom, h.lexeme?_eq, List.foldl_cons, ← scanFrom_append]

/-- The scanner goes through pieces and keeps the place. -/
theorem Pieces.scanFrom_eq {before cs rest : List Char} {ts : List Token}
    (h : Pieces before cs ts rest) :
    scanFrom 0 (.after before) (cs ++ rest) =
      (scanFrom 0 (.after (before ++ cs)) rest).map (ts ++ ·) := by
  induction h with
  | @nil before rest =>
    rw [List.append_nil, List.nil_append]
    cases scanFrom 0 (.after before) rest <;> rfl
  | token piece pieces ih =>
    rw [List.append_assoc, scanFrom_of_token piece, Position.foldl_next_after, ih,
      List.append_assoc]
    cases scanFrom 0 _ _ <;> rfl
  | gap piece pieces ih =>
    rw [List.append_assoc, scanFrom_of_gap piece, Position.foldl_next_after, ih, List.append_assoc]

theorem Stuck.scanFrom_eq {chars : List Char} {p : Position} (h : Stuck chars) (hne : chars ≠ []) :
    scanFrom 0 p chars = .error ⟨faultAt chars, p⟩ := by
  obtain ⟨c, rest, rfl⟩ := List.exists_cons_of_ne_nil hne
  have hlexeme : lexeme? c rest = none := by
    rw [Option.eq_none_iff_forall_ne_some]
    rintro ⟨b, n⟩ hlexeme
    obtain ⟨cs, tail, rfl, -, hpiece⟩ := piece_of_lexeme? hlexeme
    exact h b (c :: cs) tail rfl hpiece
  simp only [scanFrom, hlexeme]

theorem message_noToken_ne (text : String) :
    (ParseFault.noToken text).message ≠ "Unterminated block comment" := by
  have hmessage : (ParseFault.noToken text).message = "Syntax error: " ++ quoteJson text := rfl
  rw [hmessage]
  intro h
  have hhead := congrArg (·.toList.head?) h
  simp at hhead

theorem message_faultAt_iff {chars : List Char} :
    (faultAt chars).message = "Unterminated block comment" ↔ ['/', '*'] <+: chars := by
  rw [faultAt.eq_def]
  split
  · rename_i tail
    exact iff_of_true rfl ⟨tail, rfl⟩
  · rename_i hnot
    refine iff_of_false (message_noToken_ne _) ?_
    rintro ⟨tail, rfl⟩
    exact hnot tail rfl

theorem scan_of_pieces {text : String} {ts : List Token} (h : Pieces [] text.toList ts []) :
    scan text = .ok (ts ++ [⟨"", .after text.toList⟩]) := by
  have hscan := h.scanFrom_eq
  rwa [List.append_nil] at hscan

theorem scan_of_stuck {text : String} {before rest : List Char} {ts : List Token}
    (htext : text.toList = before ++ rest) (h : Pieces [] before ts rest) (hne : rest ≠ [])
    (hstuck : Stuck rest) : scan text = .error ⟨faultAt rest, .after before⟩ := by
  have hscan := h.scanFrom_eq
  rwa [hstuck.scanFrom_eq hne, ← htext] at hscan

/-- Either a text is pieces up to its end, or there is a first place where no piece begins. -/
theorem pieces_or_stuck (text : String) : (∃ ts, Pieces [] text.toList ts []) ∨
    ∃ before ts rest, text.toList = before ++ rest ∧ Pieces [] before ts rest ∧ rest ≠ [] ∧
      Stuck rest := by
  obtain ⟨before, ts, rest, htext, hpieces, hstuck⟩ := exists_pieces [] text.toList
  by_cases hrest : rest = []
  · rw [hrest, List.append_nil] at htext
    rw [← htext, hrest] at hpieces
    exact .inl ⟨ts, hpieces⟩
  · exact .inr ⟨before, ts, rest, htext, hpieces, hrest, hstuck⟩

theorem scan_eq_ok_iff {text : String} {tokens : List Token} : scan text = .ok tokens ↔
    ∃ ts, Pieces [] text.toList ts [] ∧ tokens = ts ++ [⟨"", .after text.toList⟩] := by
  constructor
  · intro h
    rcases pieces_or_stuck text with ⟨ts, hpieces⟩ | ⟨before, ts, rest, htext, hpieces, hne, hstuck⟩
    · rw [scan_of_pieces hpieces] at h
      exact ⟨ts, hpieces, (Except.ok.inj h).symm⟩
    · rw [scan_of_stuck htext hpieces hne hstuck] at h
      cases h
  · rintro ⟨ts, hpieces, rfl⟩
    exact scan_of_pieces hpieces

theorem scan_eq_error_iff {text : String} {e : ParseError} : scan text = .error e ↔
    ∃ before ts rest, text.toList = before ++ rest ∧ Pieces [] before ts rest ∧ rest ≠ [] ∧
      Stuck rest ∧ e = ⟨faultAt rest, .after before⟩ := by
  constructor
  · intro h
    rcases pieces_or_stuck text with ⟨ts, hpieces⟩ | ⟨before, ts, rest, htext, hpieces, hne, hstuck⟩
    · rw [scan_of_pieces hpieces] at h
      cases h
    · rw [scan_of_stuck htext hpieces hne hstuck] at h
      exact ⟨before, ts, rest, htext, hpieces, hne, hstuck, (Except.error.inj h).symm⟩
  · rintro ⟨before, ts, rest, htext, hpieces, hne, hstuck, rfl⟩
    exact scan_of_stuck htext hpieces hne hstuck

/-- A text is scanned exactly when it is pieces up to its end: the tokens are those among the
pieces, none of them empty, and an empty one at the end. Otherwise the error stands at the first
place where no piece begins, and blames an open comment exactly when one begins there. -/
theorem scan_iff (text : String) :
    (∀ tokens, scan text = .ok tokens ↔
      ∃ ts, Pieces [] text.toList ts [] ∧ (∀ t ∈ ts, t.text ≠ "") ∧
        tokens = ts ++ [⟨"", .after text.toList⟩]) ∧
    ∀ e, scan text = .error e ↔
      ∃ before ts rest, text.toList = before ++ rest ∧ Pieces [] before ts rest ∧ rest ≠ [] ∧
        Stuck rest ∧
        e = ⟨faultAt rest, .after before⟩ ∧
        (e.fault.message = "Unterminated block comment" ↔ ['/', '*'] <+: rest) := by
  refine ⟨fun tokens => scan_eq_ok_iff.trans ?_, fun e => scan_eq_error_iff.trans ?_⟩
  · constructor
    · rintro ⟨ts, hpieces, htokens⟩
      exact ⟨ts, hpieces, hpieces.text_ne, htokens⟩
    · rintro ⟨ts, hpieces, -, htokens⟩
      exact ⟨ts, hpieces, htokens⟩
  · constructor
    · rintro ⟨before, ts, rest, htext, hpieces, hne, hstuck, rfl⟩
      exact ⟨before, ts, rest, htext, hpieces, hne, hstuck, rfl, message_faultAt_iff⟩
    · rintro ⟨before, ts, rest, htext, hpieces, hne, hstuck, he, -⟩
      exact ⟨before, ts, rest, htext, hpieces, hne, hstuck, he⟩

/-- Places after a comment of two lines, and bytes of a character that begins no piece. -/
example : scan "/* é\n*/ é/* a" = .error ⟨.noToken "é/*", ⟨2, 4⟩⟩ := by decide +kernel

end Token

end WireSchema
