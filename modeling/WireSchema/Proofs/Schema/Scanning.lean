import Mathlib.Data.Nat.Digits.Defs
import WireSchema.Proofs.Except
import WireSchema.Proofs.Text.Classes

/-! Scanning of text that is written in words: names and integers before a break, marks, and blanks
between them. `Scans` says which tokens are found in some characters, with one law for each way in
which text is put together. -/

namespace WireSchema.Token

open Text

/-- The next character, if there is one, ends a word. -/
def Breaks (cs : List Char) : Prop := ∀ c ∈ cs.head?, isBreak c = true

theorem breaks_cons {c : Char} {cs : List Char} (hc : isBreak c = true) : Breaks (c :: cs) := by
  rintro _ ⟨⟩
  exact hc

/-! ### What begins with a character -/

/-- A longest run, told by what comes after it. -/
theorem takeWhile_append_of_head? {p : Char → Bool} {cs rest : List Char}
    (hcs : ∀ c ∈ cs, p c = true) (hrest : ∀ c ∈ rest.head?, p c = false) :
    (cs ++ rest).takeWhile p = cs := by
  rw [List.takeWhile_append_of_pos hcs]
  cases rest with
  | nil => exact List.append_nil cs
  | cons c rest => simp [hrest c rfl]

theorem dropWhile_append_of_head? {p : Char → Bool} {cs rest : List Char}
    (hcs : ∀ c ∈ cs, p c = true) (hrest : ∀ c ∈ rest.head?, p c = false) :
    (cs ++ rest).dropWhile p = rest := by
  rw [List.dropWhile_append_of_pos hcs]
  cases rest with
  | nil => rfl
  | cons c rest => simp [hrest c rfl]

theorem wordLength?_append {p : Char → Bool} {cs rest : List Char} (hcs : ∀ c ∈ cs, p c = true)
    (hbreak : Breaks rest) (hp : ∀ c, isBreak c = true → p c = false) :
    wordLength? p (cs ++ rest) = some cs.length := by
  have hrest : ∀ c ∈ rest.head?, p c = false := fun c hc => hp c (hbreak c hc)
  have hends : endsBefore rest = true := by
    cases rest with
    | nil => rfl
    | cons c rest => exact (Bool.and_eq_true_iff.mp (hbreak c rfl)).1
  rw [wordLength?, dropWhile_append_of_head? hcs hrest, takeWhile_append_of_head? hcs hrest,
    if_pos hends]

theorem isDigit_eq_false_of_isBreak {c : Char} (h : isBreak c = true) : isDigit c = false := by
  simpa using (Bool.and_eq_true_iff.mp h).2

theorem ne_minus_of {p : Char → Bool} {c : Char} (hc : p c = true) (hp : p '-' = false) :
    c ≠ '-' := by
  rintro rfl
  exact absurd hc (by simp [hp])

theorem lexeme?_name {c : Char} {cs rest : List Char} (hc : isNameStart c = true)
    (hcs : ∀ c ∈ cs, isNameRest c = true) (hbreak : Breaks rest) :
    lexeme? c (cs ++ rest) = some (true, cs.length) := by
  obtain ⟨hminus, hdigit, hmark⟩ := of_isNameStart hc
  unfold lexeme?
  rw [if_neg hminus, if_neg (by simp [hdigit]), if_neg (by simp [hmark]), if_pos hc,
    wordLength?_append hcs hbreak fun c => isNameRest_eq_false_of_isBreak]
  rfl

theorem lexeme?_digits {c : Char} {cs rest : List Char} (hc : isDigit c = true)
    (hcs : ∀ c ∈ cs, isDigit c = true) (hbreak : Breaks rest) :
    lexeme? c (cs ++ rest) = some (true, cs.length) := by
  have hminus : c ≠ '-' := ne_minus_of hc rfl
  unfold lexeme?
  rw [if_neg hminus, if_pos hc, wordLength?_append hcs hbreak fun c => isDigit_eq_false_of_isBreak]
  rfl

theorem lexeme?_minus {cs rest : List Char} (hne : cs ≠ []) (hcs : ∀ c ∈ cs, isDigit c = true)
    (hbreak : Breaks rest) : lexeme? '-' (cs ++ rest) = some (true, cs.length) := by
  have htake : ((cs ++ rest).takeWhile isDigit).isEmpty = false := by
    simp [List.takeWhile_append_of_pos hcs, hne]
  unfold lexeme?
  rw [if_pos rfl, if_neg (by simp [htake]),
    wordLength?_append hcs hbreak fun c => isDigit_eq_false_of_isBreak]
  rfl

theorem lexeme?_mark {c : Char} {rest : List Char} (hc : isMark c = true) :
    lexeme? c rest = some (true, 0) := by
  have hminus : c ≠ '-' := ne_minus_of hc rfl
  have hdigit := isDigit_eq_false_of_isBreak (isBreak_of_isMark hc)
  unfold lexeme?
  rw [if_neg hminus, if_neg (by simp [hdigit]), if_pos hc]

theorem lexeme?_blank {c : Char} {rest : List Char} (hc : isBlank c = true) :
    lexeme? c rest = some (false, (rest.takeWhile isBlank).length) := by
  have hminus : c ≠ '-' := ne_minus_of hc rfl
  have hdigit := isDigit_eq_false_of_isBreak (isBreak_of_isBlank hc)
  have hmark : isMark c = false := by
    rw [Bool.eq_false_iff]
    intro hmark
    rw [isBlank_of_isMark hmark] at hc
    cases hc
  have hstart := isNameStart_eq_false_of_isBreak (isBreak_of_isBlank hc)
  unfold lexeme?
  rw [if_neg hminus, if_neg (by simp [hdigit]), if_neg (by simp [hmark]), if_neg (by simp [hstart]),
    if_pos hc]

/-- Whether a text is a token where some characters come after it. -/
def Tokenizes (text : String) (rest : List Char) : Prop :=
  ∃ c cs, text.toList = c :: cs ∧ lexeme? c (cs ++ rest) = some (true, cs.length)

theorem tokenizes_name {text : String} {rest : List Char} (h : isName text = true)
    (hbreak : Breaks rest) : Tokenizes text rest := by
  rw [isName] at h
  cases htext : text.toList with
  | nil => simp [htext] at h
  | cons c cs =>
    rw [htext] at h
    obtain ⟨hc, hcs⟩ := Bool.and_eq_true_iff.mp h
    exact ⟨c, cs, htext, lexeme?_name hc (List.all_eq_true.mp hcs) hbreak⟩

theorem tokenizes_integer {text : String} {rest : List Char} (h : isInteger text = true)
    (hbreak : Breaks rest) : Tokenizes text rest := by
  rw [isInteger] at h
  split at h
  · rename_i digits htext
    obtain ⟨hne, hdigits⟩ := Bool.and_eq_true_iff.mp h
    exact ⟨'-', digits, htext,
      lexeme?_minus (by simpa using hne) (List.all_eq_true.mp hdigits) hbreak⟩
  · obtain ⟨hne, hdigits⟩ := Bool.and_eq_true_iff.mp h
    cases htext : text.toList with
    | nil => simp [htext] at hne
    | cons c cs =>
      rw [htext, List.all_cons] at hdigits
      obtain ⟨hc, hcs⟩ := Bool.and_eq_true_iff.mp hdigits
      exact ⟨c, cs, htext, lexeme?_digits hc (List.all_eq_true.mp hcs) hbreak⟩

theorem tokenizes_mark {c : Char} {rest : List Char} (h : isMark c = true) :
    Tokenizes (String.singleton c) rest :=
  ⟨c, [], String.toList_singleton c, lexeme?_mark h⟩

/-! ### Scanning -/

/-- The characters that belong to a token are passed. -/
theorem scanFrom_append {cs rest : List Char} {p : Position} :
    scanFrom cs.length p (cs ++ rest) = scanFrom 0 (cs.foldl Position.next p) rest := by
  induction cs generalizing p with
  | nil => rfl
  | cons c cs ih => exact ih

/-- A token is found at once, and the rest after it. -/
theorem scanFrom_token {c : Char} {cs rest : List Char} {p : Position}
    (h : lexeme? c (cs ++ rest) = some (true, cs.length)) :
    scanFrom 0 p (c :: (cs ++ rest)) =
      (scanFrom 0 ((c :: cs).foldl Position.next p) rest).map
        (⟨String.ofList (c :: cs), p⟩ :: ·) := by
  rw [scanFrom, h]
  dsimp only
  rw [List.take_left' rfl, scanFrom_append]
  rfl

theorem Tokenizes.scanFrom_eq_map {text : String} {rest : List Char} (h : Tokenizes text rest)
    (p : Position) :
    ∃ q, scanFrom 0 p (text.toList ++ rest) = (scanFrom 0 q rest).map (⟨text, p⟩ :: ·) := by
  obtain ⟨c, cs, htext, hlexeme⟩ := h
  refine ⟨text.toList.foldl Position.next p, ?_⟩
  rw [htext, List.cons_append, scanFrom_token hlexeme, ← htext, String.ofList_toList]

/-- Blanks may be passed at once or one by one. -/
theorem scanFrom_takeWhile {cs : List Char} {p : Position} :
    scanFrom (cs.takeWhile isBlank).length p cs = scanFrom 0 p cs := by
  cases cs with
  | nil => simp [scanFrom]
  | cons c cs =>
    by_cases hc : isBlank c = true
    · rw [List.takeWhile_cons_of_pos hc, List.length_cons, scanFrom, scanFrom, lexeme?_blank hc]
    · rw [List.takeWhile_cons_of_neg hc]
      rfl

theorem scanFrom_blank {c : Char} {rest : List Char} {p : Position} (hc : isBlank c = true) :
    scanFrom 0 p (c :: rest) = scanFrom 0 (p.next c) rest := by
  rw [scanFrom, lexeme?_blank hc]
  exact scanFrom_takeWhile

/-- Wherever they stand before a break, the characters are scanned into tokens of some kind, none of
them empty. -/
def Scans (cs : List Char) (spells : List Token → Prop) : Prop :=
  ∀ rest p, Breaks rest → ∃ ts q, spells ts ∧ (∀ t ∈ ts, t.isEnd = false) ∧
    scanFrom 0 p (cs ++ rest) = (scanFrom 0 q rest).map (ts ++ ·)

namespace Scans

variable {c : Char} {cs cs' : List Char} {text : String} {P Q : List Token → Prop}

theorem mono (h : Scans cs P) (hPQ : ∀ ts, P ts → Q ts) : Scans cs Q := by
  intro rest p hrest
  obtain ⟨ts, q, hts, hends, hscan⟩ := h rest p hrest
  exact ⟨ts, q, hPQ ts hts, hends, hscan⟩

theorem nil : Scans [] (· = []) := by
  intro rest p hrest
  refine ⟨[], p, rfl, by simp, ?_⟩
  rw [List.nil_append]
  cases scanFrom 0 p rest <;> rfl

theorem append (h : Scans cs P) (h' : Scans cs' Q)
    (hbreaks : ∀ {rest}, Breaks rest → Breaks (cs' ++ rest)) :
    Scans (cs ++ cs') fun ts => ∃ us us', ts = us ++ us' ∧ P us ∧ Q us' := by
  intro rest p hrest
  obtain ⟨us, q, hus, hends, hscan⟩ := h (cs' ++ rest) p (hbreaks hrest)
  obtain ⟨us', q', hus', hends', hscan'⟩ := h' rest q hrest
  refine ⟨us ++ us', q', ⟨us, us', rfl, hus, hus'⟩, ?_, ?_⟩
  · simpa [or_imp, forall_and] using ⟨hends, hends'⟩
  · rw [List.append_assoc, hscan, hscan']
    cases scanFrom 0 q' rest <;> simp [Except.map]

/-- A blank leaves no token. -/
theorem blank (hc : isBlank c = true) (h : Scans cs P) : Scans (c :: cs) P := by
  intro rest p hrest
  obtain ⟨ts, q, hts, hends, hscan⟩ := h rest (p.next c) hrest
  refine ⟨ts, q, hts, hends, ?_⟩
  rw [List.cons_append, scanFrom_blank hc, hscan]

theorem word (htext : ∀ {rest}, Breaks rest → Tokenizes text (cs ++ rest)) (h : Scans cs P) :
    Scans (text.toList ++ cs) fun ts => ∃ t us, ts = t :: us ∧ t.text = text ∧ P us := by
  intro rest p hrest
  obtain ⟨q, hq⟩ := (htext hrest).scanFrom_eq_map p
  obtain ⟨us, q', hus, hends, hscan⟩ := h rest q hrest
  have hend : isEnd ⟨text, p⟩ = false := by
    obtain ⟨c, cs, hchars, -⟩ := htext hrest
    show text.isEmpty = false
    simp [← String.toList_eq_nil_iff, hchars]
  refine ⟨⟨text, p⟩ :: us, q', ⟨_, us, rfl, rfl, hus⟩, List.forall_mem_cons.mpr ⟨hend, hends⟩, ?_⟩
  rw [List.append_assoc, hq, hscan]
  cases scanFrom 0 q' rest <;> rfl

theorem name (hname : isName text = true) (hbreaks : ∀ {rest}, Breaks rest → Breaks (cs ++ rest))
    (h : Scans cs P) :
    Scans (text.toList ++ cs) fun ts => ∃ t us, ts = t :: us ∧ t.text = text ∧ P us :=
  word (fun hrest => tokenizes_name hname (hbreaks hrest)) h

theorem integer (hinteger : isInteger text = true)
    (hbreaks : ∀ {rest}, Breaks rest → Breaks (cs ++ rest)) (h : Scans cs P) :
    Scans (text.toList ++ cs) fun ts => ∃ t us, ts = t :: us ∧ t.text = text ∧ P us :=
  word (fun hrest => tokenizes_integer hinteger (hbreaks hrest)) h

theorem mark (hc : isMark c = true) (h : Scans cs P) :
    Scans (c :: cs) fun ts => ∃ t us, ts = t :: us ∧ t.text = String.singleton c ∧ P us := by
  have hword := @word cs (String.singleton c) P (fun _ => tokenizes_mark hc) h
  rwa [String.toList_singleton] at hword

end Scans

/-! ### Integers -/

theorem decimal?_eq_some {cs : List Char} (h : ∀ c ∈ cs, c.isDigit = true) :
    decimal? cs = some (Nat.ofDigitChars 10 cs 0) := by
  have hfold : ∀ n, cs.foldlM (fun n c =>
      if '0' ≤ c && c ≤ '9' then some (n * 10 + (c.toNat - 48)) else none) n =
        some (Nat.ofDigitChars 10 cs n) := by
    induction cs with
    | nil => exact fun n => rfl
    | cons c cs ih =>
      intro n
      obtain ⟨hc, hcs⟩ := List.forall_mem_cons.mp h
      have hrange : ('0' ≤ c && c ≤ '9') = true := by simpa [Char.isDigit, Char.le_def] using hc
      rw [List.foldlM_cons, if_pos hrange, Nat.ofDigitChars, List.foldl_cons, Nat.mul_comm 10]
      exact ih hcs _
  exact hfold 0

theorem isDigit_of_decimal? {cs : List Char} {n : Nat} (h : decimal? cs = some n) :
    ∀ c ∈ cs, c.isDigit = true := by
  suffices hfold : ∀ k, cs.foldlM (fun n c =>
      if '0' ≤ c && c ≤ '9' then some (n * 10 + (c.toNat - 48)) else none) k = some n →
        ∀ c ∈ cs, c.isDigit = true from hfold 0 h
  clear h
  induction cs with
  | nil => simp
  | cons c cs ih =>
    intro k h
    obtain ⟨m, hm, h⟩ := Option.bind_eq_some_iff.mp h
    dsimp only at hm
    split at hm
    · rename_i hrange
      exact List.forall_mem_cons.mpr ⟨by simpa [Char.isDigit, Char.le_def] using hrange, ih m h⟩
    · cases hm

/-- Digits 0 to 9 have a number, and others have none. -/
theorem decimal?_eq_some_iff {cs : List Char} {n : Nat} :
    decimal? cs = some n ↔ (∀ c ∈ cs, c.isDigit = true) ∧ n = Nat.ofDigitChars 10 cs 0 := by
  constructor
  · intro h
    have hdigits := isDigit_of_decimal? h
    rw [decimal?_eq_some hdigits] at h
    exact ⟨hdigits, (Option.some.inj h).symm⟩
  · rintro ⟨hdigits, rfl⟩
    exact decimal?_eq_some hdigits

theorem isDigit_of_mem_toDigits {n : Nat} {c : Char} (h : c ∈ Nat.toDigits 10 n) :
    c.isDigit = true :=
  Nat.isDigit_of_mem_toDigits (by decide) (by decide) h

theorem toDigits_ne_minus {n : Nat} {cs : List Char} : Nat.toDigits 10 n ≠ '-' :: cs := by
  intro h
  have := isDigit_of_mem_toDigits (n := n) (c := '-') (by simp [h])
  revert this
  decide

theorem decimal?_toDigits (n : Nat) : decimal? (Nat.toDigits 10 n) = some n := by
  rw [decimal?_eq_some fun c => isDigit_of_mem_toDigits,
    Nat.ofDigitChars_toDigits (by decide) (by decide)]

theorem toList_toString_ofNat (n : Nat) : (toString (n : Int)).toList = Nat.toDigits 10 n :=
  Nat.toList_repr

theorem toList_toString_negSucc (n : Nat) :
    (toString (Int.negSucc n)).toList = '-' :: Nat.toDigits 10 (n + 1) := by
  show ("-" ++ (n + 1).repr).toList = _
  rw [String.toList_append, Nat.toList_repr]
  rfl

theorem isInteger_toString (n : Int) : isInteger (toString n) = true := by
  have hdigits : ∀ n, (!(Nat.toDigits 10 n).isEmpty && (Nat.toDigits 10 n).all isDigit) = true := by
    intro n
    have hall : (Nat.toDigits 10 n).all isDigit = true :=
      List.all_eq_true.mpr fun c hc => isDigit_of_isDigit (isDigit_of_mem_toDigits hc)
    simp [hall]
  rw [isInteger]
  cases n with
  | ofNat n =>
    split
    · rename_i hn
      exact absurd ((toList_toString_ofNat n).symm.trans hn) toDigits_ne_minus
    · rw [Int.ofNat_eq_natCast, toList_toString_ofNat]
      exact hdigits n
  | negSucc n =>
    rw [toList_toString_negSucc]
    exact hdigits (n + 1)

theorem int32?_toString {n : Int} (hn : -0x80000000 ≤ n ∧ n < 0x80000000) :
    int32? (toString n) = some (Int32.ofInt n) := by
  unfold int32?
  split
  · rename_i digits htext
    refine Option.bind_eq_some_iff.mpr ⟨n, ?_, if_pos hn⟩
    cases n with
    | ofNat n => exact absurd ((toList_toString_ofNat n).symm.trans htext) toDigits_ne_minus
    | negSucc n =>
      obtain rfl := (List.cons.inj (htext.symm.trans (toList_toString_negSucc n))).2
      rw [decimal?_toDigits]
      rfl
  · rename_i hnot
    refine Option.bind_eq_some_iff.mpr ⟨n, ?_, if_pos hn⟩
    cases n with
    | ofNat n =>
      rw [Int.ofNat_eq_natCast, toList_toString_ofNat, decimal?_toDigits]
      rfl
    | negSucc n => exact absurd (toList_toString_negSucc n) (hnot _)

/-- The characters are digits 0 to 9, with a minus sign before them or with none, and spell the
number. -/
def Spells (cs : List Char) (n : Int) : Prop :=
  ∃ digits : List Char, digits ≠ [] ∧ (∀ c ∈ digits, c.isDigit = true) ∧
    (cs = digits ∧ n = Nat.ofDigitChars 10 digits 0 ∨
      cs = '-' :: digits ∧ n = -(Nat.ofDigitChars 10 digits 0 : Int))

theorem bind_int32_eq_some_iff {value : Option Int} {n : Int32} : (do
    let value ← value
    if -0x80000000 ≤ value ∧ value < 0x80000000 then some (Int32.ofInt value) else none) = some n ↔
      value = some n.toInt := by
  rw [Option.bind_eq_bind, Option.bind_eq_some_iff]
  constructor
  · rintro ⟨m, rfl, h⟩
    split at h
    · rename_i hrange
      rw [← Option.some.inj h, Int32.toInt_ofInt_of_le hrange.1 hrange.2]
    · cases h
  · rintro rfl
    exact ⟨n.toInt, rfl, by rw [if_pos ⟨n.le_toInt, n.toInt_lt⟩, Int32.ofInt_toInt]⟩

/-- Digits 0 to 9 are digits, and the only ones of which a number is made. -/
theorem digits_and_decimal?_iff {digits : List Char} {sign : Int → Int} {n : Int} :
    (!digits.isEmpty && digits.all Text.isDigit) = true ∧
        (do let n ← decimal? digits; pure (n : Int)).map sign = some n ↔
      digits ≠ [] ∧ (∀ c ∈ digits, c.isDigit = true) ∧ n = sign (Nat.ofDigitChars 10 digits 0) := by
  rw [Bool.and_eq_true, Bool.not_eq_true', List.isEmpty_eq_false_iff, List.all_eq_true,
    Option.map_eq_some_iff]
  constructor
  · rintro ⟨⟨hne, -⟩, value, hvalue, hn⟩
    obtain ⟨m, hm, hmv⟩ := Option.bind_eq_some_iff.mp hvalue
    obtain ⟨hdigits, rfl⟩ := decimal?_eq_some_iff.mp hm
    cases hmv
    exact ⟨hne, hdigits, hn.symm⟩
  · rintro ⟨hne, hdigits, hn⟩
    refine ⟨⟨hne, fun c hc => Text.isDigit_of_isDigit (hdigits c hc)⟩, _, ?_, hn.symm⟩
    exact Option.bind_eq_some_iff.mpr ⟨_, decimal?_eq_some hdigits, rfl⟩

/-- The integers that fit 32 bits are those that digits 0 to 9 spell. -/
theorem isInteger_and_int32?_iff {text : String} {n : Int32} :
    isInteger text = true ∧ int32? text = some n ↔ Spells text.toList n.toInt := by
  by_cases hminus : ∃ digits, text.toList = '-' :: digits
  · obtain ⟨digits, htext⟩ := hminus
    simp only [isInteger, int32?, htext]
    rw [bind_int32_eq_some_iff, digits_and_decimal?_iff]
    constructor
    · rintro ⟨hne, hdigits, hn⟩
      exact ⟨digits, hne, hdigits, .inr ⟨rfl, hn⟩⟩
    · rintro ⟨digits', hne, hdigits, ⟨rfl, -⟩ | ⟨hcs, hn⟩⟩
      · exact absurd (hdigits '-' List.mem_cons_self) (by decide)
      · obtain rfl := (List.cons.inj hcs).2
        exact ⟨hne, hdigits, hn⟩
  · unfold isInteger int32?
    split
    · rename_i digits htext
      exact absurd ⟨digits, htext⟩ hminus
    rw [bind_int32_eq_some_iff, digits_and_decimal?_iff]
    constructor
    · rintro ⟨hne, hdigits, hn⟩
      exact ⟨_, hne, hdigits, .inl ⟨rfl, hn⟩⟩
    · rintro ⟨digits, hne, hdigits, ⟨htext, hn⟩ | ⟨htext, -⟩⟩
      · rw [htext]
        exact ⟨hne, hdigits, hn⟩
      · exact absurd ⟨digits, htext⟩ hminus

end WireSchema.Token
