import WireSchema.Hex
import WireSchema.Proofs.Except
import WireSchema.Proofs.Text.ByteOrder

/-! Hexadecimal text. What bytes are written as is read back. A text is read exactly if it is digits
two by two, apart from white space, which may stand anywhere and changes nothing; and what has been
read is written as these digits, in upper case and with one blank between the bytes. -/

namespace WireSchema.Hex

/-- The digits, the letters among them in either case. -/
def digitChars : List Char := "0123456789ABCDEFabcdef".toList

/-- What a text is without white space. -/
def dense (text : String) : List Char := text.toList.filter (!Text.isBlank ·)

/-- Characters two by two, in upper case. -/
def pairs : List Char → List String
  | high :: low :: rest => String.ofList [high.toUpper, low.toUpper] :: pairs rest
  | _ => []

/-- The first bytes are digits, two for each of the others. -/
inductive Spells : List UInt8 → List UInt8 → Prop
  | nil : Spells [] []
  | pair {high low : UInt8} {h l : Nat} {digits bytes : List UInt8} (hhigh : value? high = some h)
      (hlow : value? low = some l) (hrest : Spells digits bytes) :
      Spells (high :: low :: digits) (UInt8.ofNat (h * 16 + l) :: bytes)

variable {digits bytes : List UInt8} {cs : List Char}

/-! ### Digits as bytes -/

theorem value?_lt {b : UInt8} {n : Nat} (h : value? b = some n) : n < 16 := by
  unfold value? at h
  dsimp only at h
  split_ifs at h <;> cases h <;> omega

theorem ofDigits_eq_ok_iff {place : Nat} :
    ofDigits place digits = .ok bytes ↔ Spells digits bytes := by
  constructor
  · intro h
    fun_induction ofDigits place digits generalizing bytes with
    | case1 place high low rest _ _ hlow hhigh ih =>
      obtain ⟨bytes, hrest, rfl⟩ := Except.map_eq_ok.mp h
      exact .pair hhigh hlow (ih hrest)
    | case2 | case3 | case4 => cases h
    | case5 =>
      cases h
      exact .nil
  · intro h
    induction h generalizing place with
    | nil => rfl
    | pair hhigh hlow _ ih =>
      rw [ofDigits, hhigh, hlow]
      dsimp only
      rw [ih]
      rfl

theorem Spells.even (h : Spells digits bytes) : digits.length % 2 = 0 := by
  induction h with
  | nil => rfl
  | pair _ _ _ ih => simpa [Nat.add_assoc] using ih

theorem Spells.value?_ne_none (h : Spells digits bytes) : ∀ b ∈ digits, value? b ≠ none := by
  induction h with
  | nil => simp
  | pair hhigh hlow _ ih =>
    simpa [hhigh, hlow] using ih

theorem exists_spells : ∀ {digits : List UInt8}, digits.length % 2 = 0 →
    (∀ b ∈ digits, value? b ≠ none) →
    ∃ bytes, Spells digits bytes
  | [], _, _ => ⟨[], .nil⟩
  | [_], heven, _ => absurd heven Nat.one_ne_zero
  | high :: low :: digits, heven, hdigits => by
    obtain ⟨h, hhigh⟩ := Option.ne_none_iff_exists'.mp (hdigits high (by simp))
    obtain ⟨l, hlow⟩ := Option.ne_none_iff_exists'.mp (hdigits low (by simp))
    have hrest : digits.length % 2 = 0 := by simpa [Nat.add_assoc] using heven
    obtain ⟨bytes, hspells⟩ := exists_spells hrest fun b hb => hdigits b (by simp [hb])
    exact ⟨_, .pair hhigh hlow hspells⟩

/-- A text is read for the bytes that its own spell. -/
theorem parse_eq_ok_iff {text : String} :
    parse text = .ok bytes ↔ Spells (Utf8.encode (String.ofList (dense text))) bytes := by
  unfold parse
  dsimp only
  split
  · rename_i hodd
    constructor
    · exact nofun
    · intro h
      exact absurd (h.even.symm.trans hodd) (by decide)
  · exact ofDigits_eq_ok_iff

/-! ### Digits as characters -/

/-- No other character has bytes that are digits. -/
theorem mem_digitChars_of_bytes {c : Char} (h : ∀ b ∈ String.utf8EncodeChar c, value? b ≠ none) :
    c ∈ digitChars := by
  by_cases hascii : c.toNat < 0x80
  · have hdigits : ∀ n < 0x80, value? (UInt8.ofNat n) ≠ none → Char.ofNat n ∈ digitChars := by
      decide
    rw [Utf8.encodeChar_of_lt hascii] at h
    have hc := hdigits _ hascii (h _ List.mem_cons_self)
    rwa [Char.ofNat_toNat] at hc
  · have hpoint := Utf8.codePoint_lt c
    have hfirst : (UInt8.ofNat (Utf8.firstByte c.toNat)).toNat = Utf8.firstByte c.toNat := by
      rw [UInt8.toNat_ofNat']
      exact Nat.mod_eq_of_lt (Utf8.firstByte_lt hpoint)
    have hlarge : 0xC0 ≤ Utf8.firstByte c.toNat := by
      unfold Utf8.firstByte
      split_ifs <;> omega
    rw [Utf8.encodeChar_eq] at h
    refine absurd ?_ (h _ List.mem_cons_self)
    unfold value?
    dsimp only
    rw [hfirst, if_neg (by omega), if_neg (by omega), if_neg (by omega)]

/-- A digit has a value, which is written as the digit in upper case. -/
theorem map_digit_value? {c : Char} (h : c ∈ digitChars) :
    c.toNat < 0x80 ∧ (value? (UInt8.ofNat c.toNat)).map digit = some c.toUpper := by
  -- gone through as a list, not as a set of characters
  have hall : digitChars.all fun c =>
      decide (c.toNat < 0x80 ∧ (value? (UInt8.ofNat c.toNat)).map digit = some c.toUpper) := by
        decide
  exact of_decide_eq_true (List.all_eq_true.mp hall c h)

/-- What a value is written as. -/
theorem digit_of_lt : ∀ n < 16,
    digit n ∈ digitChars ∧ value? (UInt8.ofNat (digit n).toNat) = some n ∧
    Text.isBlank (digit n) = false := by decide

theorem encode_ofList_of_digits (h : ∀ c ∈ cs, c ∈ digitChars) :
    Utf8.encode (String.ofList cs) = cs.map fun c => UInt8.ofNat c.toNat := by
  rw [Utf8.encode, String.toList_ofList]
  induction cs with
  | nil => rfl
  | cons c cs ih =>
    obtain ⟨hc, hcs⟩ := List.forall_mem_cons.mp h
    rw [List.flatMap_cons, Utf8.encodeChar_of_lt (map_digit_value? hc).1, ih hcs]
    rfl

/-- A byte is written as the digits that spell it, in upper case. -/
theorem pair_of_values {high low : Char} {h l : Nat} (hhigh : high ∈ digitChars)
    (hlow : low ∈ digitChars) (hh : value? (UInt8.ofNat high.toNat) = some h)
    (hl : value? (UInt8.ofNat low.toNat) = some l) :
    pair (UInt8.ofNat (h * 16 + l)) = String.ofList [high.toUpper, low.toUpper] := by
  have hh' := value?_lt hh
  have hl' := value?_lt hl
  have hbyte : (UInt8.ofNat (h * 16 + l)).toNat = h * 16 + l := by
    rw [UInt8.toNat_ofNat']
    omega
  have hupper := (map_digit_value? hhigh).2
  have hupper' := (map_digit_value? hlow).2
  rw [hh, Option.map_some, Option.some.injEq] at hupper
  rw [hl, Option.map_some, Option.some.injEq] at hupper'
  rw [pair, hbyte, ← hupper, ← hupper', show (h * 16 + l) / 16 = h by omega,
    show (h * 16 + l) % 16 = l by omega]

theorem map_pair_of_spells : ∀ {cs : List Char} {bytes : List UInt8}, (∀ c ∈ cs, c ∈ digitChars) →
    Spells (cs.map fun c => UInt8.ofNat c.toNat) bytes → bytes.map pair = pairs cs
  | [], _, _, .nil => rfl
  | high :: low :: cs, _, hcs, .pair hhigh hlow hrest => by
    simp only [List.forall_mem_cons] at hcs
    rw [List.map_cons, pair_of_values hcs.1 hcs.2.1 hhigh hlow,
      map_pair_of_spells hcs.2.2 hrest, pairs]

/-! ### White space -/

theorem dense_append (s t : String) : dense (s ++ t) = dense s ++ dense t := by
  rw [dense, String.toList_append, List.filter_append, dense, dense]

theorem dense_eq_nil {text : String} (h : ∀ c ∈ text.toList, Text.isBlank c = true) :
    dense text = [] :=
  List.filter_eq_nil_iff.mpr fun c hc => by simp [h c hc]

theorem dense_intercalate {sep : String} (h : dense sep = []) (texts : List String) :
    dense (sep.intercalate texts) = texts.flatMap dense := by
  induction texts with
  | nil => rfl
  | cons text texts ih =>
    cases texts with
    | nil => simp
    | cons text' texts =>
      rw [String.intercalate_cons_cons, dense_append, dense_append, h, ih, List.append_nil,
        List.flatMap_cons (x := text)]

theorem dense_pair (b : UInt8) : dense (pair b) = [digit (b.toNat / 16), digit (b.toNat % 16)] := by
  have hb := b.toNat_lt
  obtain ⟨-, -, hhigh⟩ := digit_of_lt (b.toNat / 16) (by omega)
  obtain ⟨-, -, hlow⟩ := digit_of_lt (b.toNat % 16) (by omega)
  simp [dense, pair, hhigh, hlow]

theorem dense_print (bytes : List UInt8) :
    dense (print bytes) = bytes.flatMap fun b => [digit (b.toNat / 16), digit (b.toNat % 16)] := by
  rw [print, dense_intercalate (by decide), List.flatMap_map]
  simp only [dense_pair]

/-! ### Texts of digits -/

theorem parse_eq_ok_iff_of_digits {text : String} (h : ∀ c ∈ dense text, c ∈ digitChars) :
    parse text = .ok bytes ↔ Spells ((dense text).map fun c => UInt8.ofNat c.toNat) bytes := by
  rw [parse_eq_ok_iff, encode_ofList_of_digits h]

theorem spells_print : ∀ bytes : List UInt8,
    Spells ((bytes.flatMap fun b => [digit (b.toNat / 16), digit (b.toNat % 16)]).map fun c =>
      UInt8.ofNat c.toNat) bytes
  | [] => .nil
  | b :: bytes => by
    have hb := b.toNat_lt
    obtain ⟨-, hhigh, -⟩ := digit_of_lt (b.toNat / 16) (by omega)
    obtain ⟨-, hlow, -⟩ := digit_of_lt (b.toNat % 16) (by omega)
    have h := Spells.pair hhigh hlow (spells_print bytes)
    rwa [Nat.div_add_mod' b.toNat 16, UInt8.ofNat_toNat] at h

theorem parse_printed (bytes : List UInt8) : parse (print bytes) = .ok bytes := by
  have hdigits : ∀ c ∈ dense (print bytes), c ∈ digitChars := by
    intro c hc
    rw [dense_print] at hc
    obtain ⟨b, -, hc⟩ := List.mem_flatMap.mp hc
    have hb := b.toNat_lt
    rcases List.mem_pair.mp hc with rfl | rfl
    · exact (digit_of_lt _ (by omega)).1
    · exact (digit_of_lt _ (by omega)).1
  rw [parse_eq_ok_iff_of_digits hdigits, dense_print]
  exact spells_print bytes

theorem mem_digitChars_of_parse {text : String} (h : parse text = .ok bytes) :
    ∀ c ∈ dense text, c ∈ digitChars := by
  have hspells := parse_eq_ok_iff.mp h
  rw [Utf8.encode, String.toList_ofList] at hspells
  exact fun c hc => mem_digitChars_of_bytes fun b hb =>
    hspells.value?_ne_none b (List.mem_flatMap.mpr ⟨c, hc, hb⟩)

/-- Texts without white space that are of even length and digits throughout are read, and no
others. -/
theorem exists_parse_iff {text : String} :
    (∃ bytes, parse text = .ok bytes) ↔
      (dense text).length % 2 = 0 ∧ ∀ c ∈ dense text, c ∈ digitChars := by
  constructor
  · rintro ⟨bytes, h⟩
    have hdigits := mem_digitChars_of_parse h
    have heven := ((parse_eq_ok_iff_of_digits hdigits).mp h).even
    rw [List.length_map] at heven
    exact ⟨heven, hdigits⟩
  · rintro ⟨heven, hdigits⟩
    have hvalues : ∀ b ∈ (dense text).map fun c => UInt8.ofNat c.toNat, value? b ≠ none := by
      intro b hb
      obtain ⟨c, hc, rfl⟩ := List.mem_map.mp hb
      obtain ⟨-, hvalue⟩ := map_digit_value? (hdigits c hc)
      intro hnone
      rw [hnone] at hvalue
      cases hvalue
    obtain ⟨bytes, h⟩ := exists_spells (by rwa [List.length_map]) hvalues
    exact ⟨bytes, (parse_eq_ok_iff_of_digits hdigits).mpr h⟩

theorem print_of_parse {text : String} (h : parse text = .ok bytes) :
    print bytes = " ".intercalate (pairs (dense text)) := by
  have hdigits := mem_digitChars_of_parse h
  rw [print, map_pair_of_spells hdigits ((parse_eq_ok_iff_of_digits hdigits).mp h)]

theorem parse_congr {text text' : String} (h : dense text = dense text') :
    parse text = parse text' := by
  have hfilter : text.toList.filter (!Text.isBlank ·) = text'.toList.filter (!Text.isBlank ·) := h
  rw [parse, parse, hfilter]

/-- What bytes are written as is read back. A text is read exactly if, without its white space, it
is of even length and digits throughout, and the bytes read are written as these digits, in upper
case and with one blank between two pairs. White space put in or left out anywhere, between the
digits of a pair too, changes nothing. -/
theorem parse_exact :
    (∀ bytes, parse (print bytes) = .ok bytes) ∧
    (∀ text, (∃ bytes, parse text = .ok bytes) ↔
      (dense text).length % 2 = 0 ∧ ∀ c ∈ dense text, c ∈ digitChars) ∧
    (∀ text bytes, parse text = .ok bytes → print bytes = " ".intercalate (pairs (dense text))) ∧
    ∀ before blanks after : String, (∀ c ∈ blanks.toList, Text.isBlank c = true) →
      parse (before ++ blanks ++ after) = parse (before ++ after) := by
  refine ⟨parse_printed, fun _ => exists_parse_iff, fun _ _ => print_of_parse,
    fun before blanks after h => ?_⟩
  apply parse_congr
  rw [dense_append, dense_append, dense_append, dense_eq_nil h, List.append_nil]

/-- White space within a pair, of one byte and of more. -/
example : parse "f\u3000F 0\t7" = .ok [0xFF, 7] ∧ print [0xFF, 7] = "FF 07" ∧
    parse "é" = .error (.noDigit 0xC3 0) := by
  decide

end WireSchema.Hex
