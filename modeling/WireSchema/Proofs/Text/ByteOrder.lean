import Mathlib.Algebra.Group.Nat.Defs
import Mathlib.Tactic.SplitIfs
import WireSchema.Text.Utf8

/-! Texts in the order of their bytes. The first byte of a character says how many follow it, and
greater characters have greater first bytes or, behind the same one, greater bytes; so texts are
ordered as their UTF-8 bytes are. -/

namespace WireSchema.Utf8

/-- The last bytes of a character, each with six bits of its code point, highest first. -/
def following : Nat → Nat → List UInt8
  | 0, _ => []
  | n + 1, point => UInt8.ofNat (point / 64 ^ n % 64 + 0x80) :: following n point

/-- How many bytes follow the first one of a character. -/
def countFollowing (point : Nat) : Nat :=
  if point < 0x80 then 0 else if point < 0x800 then 1 else if point < 0x10000 then 2 else 3

/-- The first byte of a character. -/
def firstByte (point : Nat) : Nat :=
  if point < 0x80 then point
  else if point < 0x800 then point / 0x40 + 0xC0
  else if point < 0x10000 then point / 0x1000 + 0xE0
  else point / 0x40000 + 0xF0

theorem codePoint_lt (c : Char) : c.toNat < 0x110000 := by
  have hvalid : c.toNat < 0xD800 ∨ 0xDFFF < c.toNat ∧ c.toNat < 0x110000 := c.valid
  omega

theorem encodeChar_eq (c : Char) : String.utf8EncodeChar c =
    UInt8.ofNat (firstByte c.toNat) :: following (countFollowing c.toNat) c.toNat := by
  have hpoint := codePoint_lt c
  have hval : c.val.toNat = c.toNat := rfl
  simp only [String.utf8EncodeChar, hval, firstByte, countFollowing]
  generalize c.toNat = point at hpoint ⊢
  by_cases h1 : point < 0x80
  · rw [if_pos (by omega), if_pos h1, if_pos h1]
    rfl
  by_cases h2 : point < 0x800
  · have hfirst : point / 64 % 32 = point / 64 := Nat.mod_eq_of_lt (by omega)
    rw [if_neg (by omega), if_pos (by omega), if_neg h1, if_pos h2, if_neg h1, if_pos h2, hfirst]
    simp [following]
  by_cases h3 : point < 0x10000
  · have hfirst : point / 4096 % 16 = point / 4096 := Nat.mod_eq_of_lt (by omega)
    rw [if_neg (by omega), if_neg (by omega), if_pos (by omega), if_neg h1, if_neg h2,
      if_pos h3, if_neg h1, if_neg h2, if_pos h3, hfirst]
    simp [following]
  · have hfirst : point / 262144 % 8 = point / 262144 := Nat.mod_eq_of_lt (by omega)
    rw [if_neg (by omega), if_neg (by omega), if_neg (by omega), if_neg h1, if_neg h2,
      if_neg h3, if_neg h1, if_neg h2, if_neg h3, hfirst]
    simp [following]

theorem encodeChar_of_lt {c : Char} (h : c.toNat < 0x80) :
    String.utf8EncodeChar c = [UInt8.ofNat c.toNat] := by
  rw [encodeChar_eq, firstByte, countFollowing, if_pos h, if_pos h]
  rfl

/-! ### The order of characters -/

theorem firstByte_lt {point : Nat} (h : point < 0x110000) : firstByte point < 256 := by
  unfold firstByte
  split_ifs <;> omega

/-- Of two characters, the greater has the greater first byte, or the same one and the greater
rest. -/
theorem firstByte_lt_or_eq {p q : Nat} (h : p < q) : firstByte p < firstByte q ∨
    firstByte p = firstByte q ∧ countFollowing p = countFollowing q ∧
      p % 64 ^ countFollowing p < q % 64 ^ countFollowing q := by
  unfold firstByte countFollowing
  split_ifs <;> omega

theorem following_append_lt {n p q : Nat} (h : p % 64 ^ n < q % 64 ^ n) (bs bs' : List UInt8) :
    following n p ++ bs < following n q ++ bs' := by
  induction n with
  | zero => omega
  | succ n ih =>
    have hbyte : ∀ point : Nat, (UInt8.ofNat (point / 64 ^ n % 64 + 0x80)).toNat =
        point / 64 ^ n % 64 + 0x80 := by
      intro point
      rw [UInt8.toNat_ofNat']
      omega
    rw [following, following, List.cons_append, List.cons_append, List.cons_lt_cons_iff,
      UInt8.lt_iff_toNat_lt, ← UInt8.toNat_inj, hbyte, hbyte]
    rw [Nat.mod_pow_succ, Nat.mod_pow_succ] at h
    rcases Nat.lt_trichotomy (p / 64 ^ n % 64) (q / 64 ^ n % 64) with hlt | heq | hgt
    · exact .inl (Nat.add_lt_add_right hlt _)
    · rw [heq] at h ⊢
      exact .inr ⟨rfl, ih (Nat.lt_of_add_lt_add_right h)⟩
    · -- a lesser digit is not made up for by those below it
      have hle := Nat.mul_le_mul_left (64 ^ n) hgt
      have hq := Nat.mod_lt q (Nat.pow_pos (n := n) (show 0 < 64 by decide))
      rw [Nat.mul_succ] at hle
      omega

theorem encodeChar_append_lt {c d : Char} (h : c < d) (bs bs' : List UInt8) :
    String.utf8EncodeChar c ++ bs < String.utf8EncodeChar d ++ bs' := by
  have hbyte : ∀ c : Char, (UInt8.ofNat (firstByte c.toNat)).toNat = firstByte c.toNat := by
    intro c
    rw [UInt8.toNat_ofNat']
    exact Nat.mod_eq_of_lt (firstByte_lt (codePoint_lt c))
  rw [encodeChar_eq, encodeChar_eq, List.cons_append, List.cons_append, List.cons_lt_cons_iff,
    UInt8.lt_iff_toNat_lt, ← UInt8.toNat_inj, hbyte, hbyte]
  rcases firstByte_lt_or_eq (show c.toNat < d.toNat from h) with hlt | ⟨heq, hcount, hrest⟩
  · exact .inl hlt
  · rw [hcount] at hrest ⊢
    exact .inr ⟨heq, following_append_lt hrest bs bs'⟩

/-! ### The order of texts -/

theorem flatMap_encodeChar_lt {cs ds : List Char} (h : cs < ds) :
    cs.flatMap String.utf8EncodeChar < ds.flatMap String.utf8EncodeChar := by
  induction cs generalizing ds with
  | nil =>
    cases ds with
    | nil => exact absurd h (List.not_lt_nil [])
    | cons d ds =>
      rw [List.flatMap_cons, encodeChar_eq]
      exact List.nil_lt_cons _ _
  | cons c cs ih =>
    cases ds with
    | nil => exact absurd h (List.not_lt_nil _)
    | cons d ds =>
      rw [List.flatMap_cons, List.flatMap_cons]
      rcases List.cons_lt_cons_iff.mp h with hlt | ⟨rfl, hlt⟩
      · exact encodeChar_append_lt hlt _ _
      · exact List.append_left_lt (ih hlt)

theorem encode_lt_encode {s t : String} (h : s < t) : encode s < encode t := flatMap_encodeChar_lt h

end WireSchema.Utf8
