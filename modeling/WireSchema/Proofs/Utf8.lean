import Mathlib.Algebra.Group.Nat.Defs
import Mathlib.Tactic.SplitIfs
import WireSchema.Text.Utf8

/-! Texts read back from their UTF-8 bytes, and bytes without a zero read as a text without one,
whether or not they are UTF-8. -/

namespace WireSchema.Utf8

/-! ### First bytes -/

theorem lead_two {b : Nat} (hlow : 0xC2 ≤ b) (hhigh : b ≤ 0xDF) :
    lead b = some ⟨b - 0xC0, 0x80, 0xBF, 1⟩ := by
  rw [lead, if_neg (by omega), if_pos hhigh]

theorem lead_three {b : Nat} (hlow : 0xE0 ≤ b) (hhigh : b ≤ 0xEF) :
    lead b = some ⟨b - 0xE0, if b = 0xE0 then 0xA0 else 0x80,
      if b = 0xED then 0x9F else 0xBF, 2⟩ := by
  rw [lead, if_neg (by omega), if_neg (by omega)]
  by_cases h0 : b = 0xE0
  · subst h0
    rfl
  · by_cases hd : b = 0xED
    · subst hd
      rfl
    · simp only [h0, hd, ↓reduceIte, if_pos hhigh]

theorem lead_four {b : Nat} (hlow : 0xF0 ≤ b) (hhigh : b ≤ 0xF4) :
    lead b = some ⟨b - 0xF0, if b = 0xF0 then 0x90 else 0x80,
      if b = 0xF4 then 0x8F else 0xBF, 3⟩ := by
  rw [lead, if_neg (by omega), if_neg (by omega), if_neg (by omega), if_neg (by omega),
    if_neg (by omega)]
  by_cases h0 : b = 0xF0
  · subst h0
    rfl
  · by_cases h4 : b = 0xF4
    · subst h4
      rfl
    · simp only [h0, h4, ↓reduceIte, if_pos (show b ≤ 0xF3 by omega)]

theorem range_of_lead {b : Nat} {l : Lead} (h : lead b = some l) :
    (0xC2 ≤ b ∧ b ≤ 0xDF) ∨ (0xE0 ≤ b ∧ b ≤ 0xEF) ∨ (0xF0 ≤ b ∧ b ≤ 0xF4) := by
  unfold lead at h
  split_ifs at h <;> omega

/-! ### The bytes after the first -/

/-- A byte with six bits of a number, if it lies where it should. -/
theorem tail_cons {tails bits low high n : Nat} {rest : List UInt8} (hlow : low ≤ n % 64 + 0x80)
    (hhigh : n % 64 + 0x80 ≤ high) :
    tail (tails + 1) bits low high (UInt8.ofNat (n % 64 + 0x80) :: rest) =
      ((tail tails (bits * 64 + n % 64) 0x80 0xBF rest).1,
        (tail tails (bits * 64 + n % 64) 0x80 0xBF rest).2 + 1) := by
  have hb : (UInt8.ofNat (n % 64 + 0x80)).toNat = n % 64 + 0x80 := by
    rw [UInt8.toNat_ofNat']
    omega
  rw [tail, hb, if_pos ⟨hlow, hhigh⟩, show (n % 64 + 0x80) % 64 = n % 64 by omega]

@[simp] theorem tail_zero {bits low high : Nat} {rest : List UInt8} :
    tail 0 bits low high rest = (some bits, 0) := by
  rw [tail]

/-- The code point that is read lies where the bounds of the second byte put it. -/
theorem tail_bounds {tails bits low high p : Nat} {rest : List UInt8} (hlow : 0x80 ≤ low)
    (hhigh : high ≤ 0xBF) (h : (tail (tails + 1) bits low high rest).1 = some p) :
    (bits * 64 + (low - 0x80)) * 64 ^ tails ≤ p ∧
      p < (bits * 64 + (high - 0x80) + 1) * 64 ^ tails := by
  induction tails generalizing bits low high rest with
  | zero =>
    cases rest with
    | nil => simp [tail] at h
    | cons b rest =>
      rw [tail] at h
      split_ifs at h with hb
      · simp only [tail_zero, Option.some.injEq] at h
        omega
  | succ tails ih =>
    cases rest with
    | nil => simp [tail] at h
    | cons b rest =>
      rw [tail] at h
      split_ifs at h with hb
      obtain ⟨hl, hu⟩ := ih (by decide) (by decide) h
      have hpow : 64 ^ (tails + 1) = 64 * 64 ^ tails := by rw [Nat.pow_succ, Nat.mul_comm]
      have hle : bits * 64 + (low - 0x80) ≤ bits * 64 + b.toNat % 64 := by omega
      have hlt : bits * 64 + b.toNat % 64 + 1 ≤ bits * 64 + (high - 0x80) + 1 := by omega
      rw [hpow, ← Nat.mul_assoc, ← Nat.mul_assoc]
      exact ⟨Nat.le_trans (Nat.mul_le_mul_right _ (by omega)) hl,
        Nat.lt_of_lt_of_le hu (Nat.mul_le_mul_right _ (by omega))⟩

/-! ### Texts -/

theorem piecesFrom_append (bs rest : List UInt8) :
    piecesFrom bs.length (bs ++ rest) = piecesFrom 0 rest := by
  induction bs with
  | nil => rfl
  | cons b bs ih => rw [List.length_cons, List.cons_append, piecesFrom, ih]

theorem piecesFrom_cons (bs : List UInt8) {b : UInt8} {rest : List UInt8} {point : Option Nat}
    (h : piece b (bs ++ rest) = (point, bs.length)) :
    piecesFrom 0 (b :: bs ++ rest) = point :: piecesFrom 0 rest := by
  rw [List.cons_append, piecesFrom, h]
  exact congrArg (point :: ·) (piecesFrom_append bs rest)

/-- The bytes of a character are one piece. -/
theorem piecesFrom_encodeChar (c : Char) (rest : List UInt8) :
    piecesFrom 0 (String.utf8EncodeChar c ++ rest) = some c.toNat :: piecesFrom 0 rest := by
  have hvalid : c.toNat < 0xD800 ∨ 0xDFFF < c.toNat ∧ c.toNat < 0x110000 := c.valid
  generalize hv : c.toNat = v at hvalid
  have hval : c.val.toNat = v := hv
  simp only [String.utf8EncodeChar, hval]
  -- one case for each number of bytes; the first byte says where the second one may lie
  split_ifs with h1 h2 h3
  · have hb : (UInt8.ofNat v).toNat = v := by
      rw [UInt8.toNat_ofNat']
      omega
    apply piecesFrom_cons []
    rw [piece, if_pos (by rw [UInt8.lt_iff_toNat_lt, hb]; simp; omega), hb]
    rfl
  · have hb : (UInt8.ofNat (v / 64 % 0x20 + 0xc0)).toNat = v / 64 + 0xC0 := by
      rw [UInt8.toNat_ofNat']
      omega
    apply piecesFrom_cons [_]
    rw [piece, if_neg (by rw [UInt8.lt_iff_toNat_lt, hb]; simp), hb,
      lead_two (by omega) (by omega)]
    simp only [List.cons_append, List.nil_append]
    rw [tail_cons (by omega) (by omega)]
    simp only [tail_zero, List.length_cons, List.length_nil, Prod.mk.injEq, Option.some.injEq,
      and_true]
    omega
  · have hb : (UInt8.ofNat (v / 4096 % 0x10 + 0xe0)).toNat = v / 4096 + 0xE0 := by
      rw [UInt8.toNat_ofNat']
      omega
    apply piecesFrom_cons [_, _]
    rw [piece, if_neg (by rw [UInt8.lt_iff_toNat_lt, hb]; simp), hb,
      lead_three (by omega) (by omega)]
    simp only [List.cons_append, List.nil_append]
    rw [tail_cons (by split <;> omega) (by split <;> omega), tail_cons (by omega) (by omega)]
    simp only [tail_zero, List.length_cons, List.length_nil, Prod.mk.injEq, Option.some.injEq,
      and_true]
    omega
  · have hb : (UInt8.ofNat (v / 262144 % 0x08 + 0xf0)).toNat = v / 262144 + 0xF0 := by
      rw [UInt8.toNat_ofNat']
      omega
    apply piecesFrom_cons [_, _, _]
    rw [piece, if_neg (by rw [UInt8.lt_iff_toNat_lt, hb]; simp), hb,
      lead_four (by omega) (by omega)]
    simp only [List.cons_append, List.nil_append]
    rw [tail_cons (by split <;> omega) (by split <;> omega), tail_cons (by omega) (by omega),
      tail_cons (by omega) (by omega)]
    simp only [tail_zero, List.length_cons, List.length_nil, Prod.mk.injEq, Option.some.injEq,
      and_true]
    omega

theorem pieces_flatMap (cs : List Char) :
    pieces (cs.flatMap String.utf8EncodeChar) = cs.map fun c => some c.toNat := by
  induction cs with
  | nil => rfl
  | cons c cs ih =>
    rw [List.flatMap_cons, pieces, piecesFrom_encodeChar, List.map_cons]
    exact congrArg (some c.toNat :: ·) ih

theorem decodeLossy_encode (s : String) : decodeLossy (encode s) = s := by
  rw [decodeLossy, encode, pieces_flatMap, List.map_map]
  have hid : ((fun point : Option Nat => (point.map Char.ofNat).getD replacement) ∘
      fun c : Char => some c.toNat) = id := by
    funext c
    simp [Char.ofNat_toNat]
  rw [hid, List.map_id, String.ofList_toList]

/-! ### Zeros -/

/-- A piece that does not begin with a zero byte stands for no character or for one that is not
zero. -/
theorem piece_ne_zero {b : UInt8} {rest : List UInt8} {p : Nat} (hb : b ≠ 0)
    (h : (piece b rest).1 = some p) : p.isValidChar ∧ p ≠ 0 := by
  have hpos : b.toNat ≠ 0 := fun h0 => hb (UInt8.toNat_inj.mp h0)
  rw [piece] at h
  split_ifs at h with hascii
  · rw [UInt8.lt_iff_toNat_lt] at hascii
    obtain rfl : b.toNat = p := by simpa using h
    exact ⟨.inl (by simp at hascii; omega), hpos⟩
  · cases hl : lead b.toNat with
    | none => simp [hl] at h
    | some l =>
      simp only [hl] at h
      -- the bounds of the second byte keep the code point off zero and off the surrogates
      obtain ⟨hlow, hhigh⟩ | ⟨hlow, hhigh⟩ | ⟨hlow, hhigh⟩ := range_of_lead hl
      · rw [lead_two hlow hhigh, Option.some.injEq] at hl
        subst hl
        simp only at h
        have := tail_bounds (Nat.le_refl _) (Nat.le_refl _) h
        exact ⟨.inl (by omega), by omega⟩
      · rw [lead_three hlow hhigh, Option.some.injEq] at hl
        subst hl
        simp only at h
        have := tail_bounds (by split <;> decide) (by split <;> decide) h
        unfold Nat.isValidChar
        split_ifs at this <;> omega
      · rw [lead_four hlow hhigh, Option.some.injEq] at hl
        subst hl
        simp only at h
        have := tail_bounds (by split <;> decide) (by split <;> decide) h
        unfold Nat.isValidChar
        split_ifs at this <;> omega

theorem piecesFrom_ne_zero {skip p : Nat} {bs : List UInt8} (hbs : ∀ b ∈ bs, b ≠ 0)
    (h : some p ∈ piecesFrom skip bs) : p.isValidChar ∧ p ≠ 0 := by
  induction bs generalizing skip with
  | nil => simp [piecesFrom] at h
  | cons b bs ih =>
    have hrest : ∀ b ∈ bs, b ≠ 0 := fun b' hb' => hbs b' (List.mem_cons_of_mem b hb')
    cases skip with
    | zero =>
      rw [piecesFrom] at h
      rcases List.mem_cons.mp h with hp | hp
      · exact piece_ne_zero (hbs b List.mem_cons_self) hp.symm
      · exact ih hrest hp
    | succ skip => exact ih hrest (by rwa [piecesFrom] at h)

/-- Bytes without a zero are read as a text without a zero. -/
theorem zero_notMem_decodeLossy {bs : List UInt8} (hbs : ∀ b ∈ bs, b ≠ 0) :
    Char.ofNat 0 ∉ (decodeLossy bs).toList := by
  rw [decodeLossy, String.toList_ofList, List.mem_map]
  rintro ⟨point, hpoint, h⟩
  cases point with
  | none => exact absurd h (by decide)
  | some p =>
    obtain ⟨hvalid, hp⟩ := piecesFrom_ne_zero hbs hpoint
    have hchar : (Char.ofNat p).toNat = p := by
      rw [Char.ofNat, dif_pos hvalid]
      rfl
    have := congrArg Char.toNat h
    rw [Option.map_some, Option.getD_some, hchar] at this
    exact hp this

/-- The bytes of a text hold a zero only where the text does. -/
theorem ne_zero_of_mem_encode {s : String} (hs : Char.ofNat 0 ∉ s.toList) :
    ∀ b ∈ encode s, b ≠ 0 := by
  rintro b hb rfl
  obtain ⟨c, hc, hcb⟩ := List.mem_flatMap.mp hb
  apply hs
  suffices c = Char.ofNat 0 from this ▸ hc
  have hv : c.val.toNat = 0 := by
    simp only [String.utf8EncodeChar] at hcb
    have hz : ∀ n : Nat, (0 : UInt8) = UInt8.ofNat n ↔ n % 256 = 0 := by
      intro n
      rw [← UInt8.toNat_inj, UInt8.toNat_ofNat']
      exact eq_comm
    split_ifs at hcb <;>
      simp only [List.mem_cons, List.not_mem_nil, or_false, hz] at hcb <;> omega
  exact Char.ext (UInt32.toNat_inj.mp hv)

end WireSchema.Utf8
