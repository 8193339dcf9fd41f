import Mathlib.Data.List.TakeWhile
import WireSchema.Bytes.Primitive
import WireSchema.Proofs.Utf8
import WireSchema.Proofs.Varint

/-! Primitives read back. Truth values, integers and texts without a zero do as they are; a float
whose exponent field is zero comes back as zero, every other one bit for bit. What is read from any
bytes at all is of that kind: no text read holds a zero, and no float read has a zero exponent field
but zero itself. -/

namespace WireSchema

namespace Binary32

/-- What a float is read back as: one with a zero exponent field is written as zero. -/
def flush (x : Binary32) : Binary32 := if x.exponentField = 0 then zero else x

theorem exponentFirst_lt (x : Binary32) : x.exponentFirst < 2 ^ 32 := by
  have := x.bits.toNat_lt
  rw [exponentFirst]
  omega

theorem exponentField_eq (x : Binary32) : x.exponentField = x.exponentFirst % 0x100 := by
  have hfield : x.bits.toNat % 0x80000000 / 0x800000 = x.bits.toNat / 0x800000 % 0x100 :=
    Nat.mod_mul_right_div_self x.bits.toNat 0x800000 0x100
  rw [exponentField, magnitude, exponentFirst, hfield]
  generalize x.bits.toNat / 0x800000 = top
  generalize x.bits.toNat % 0x800000 = fraction
  omega

theorem ofExponentFirst_exponentFirst (x : Binary32) : ofExponentFirst x.exponentFirst = x := by
  have hx := x.bits.toNat_lt
  have hbits : x.exponentFirst / 0x200 + x.exponentFirst % 0x200 * 0x800000 = x.bits.toNat := by
    rw [exponentFirst]
    omega
  rw [ofExponentFirst, hbits, UInt32.ofNat_toNat]

/-- The lowest byte of the turned bits is the exponent field. -/
theorem exponentField_ofExponentFirst {n : Nat} (hn : n < 2 ^ 32) :
    (ofExponentFirst n).exponentField = n % 0x100 := by
  have hbits : (UInt32.ofNat (n / 0x200 + n % 0x200 * 0x800000)).toNat =
      n / 0x200 + n % 0x200 * 0x800000 := by
    rw [UInt32.toNat_ofNat']
    omega
  have hfield : ∀ m : Nat, m % 0x80000000 / 0x800000 = m / 0x800000 % 0x100 := fun m =>
    Nat.mod_mul_right_div_self m 0x800000 0x100
  have hdiv : (n / 0x200 + n % 0x200 * 0x800000) / 0x800000 = n % 0x200 := by
    rw [Nat.add_mul_div_right _ _ (by decide), Nat.div_eq_of_lt (by omega), Nat.zero_add]
  rw [exponentField, magnitude, ofExponentFirst, hbits, hfield, hdiv]
  omega

end Binary32

namespace Reader

/-! ### Little-endian numbers -/

theorem length_littleEndian (n : Nat) : (Wire.littleEndian n).length = 4 := rfl

theorem ofLittleEndian_littleEndian {n : Nat} (hn : n < 2 ^ 32) :
    ofLittleEndian (Wire.littleEndian n) = n := by
  simp only [Wire.littleEndian, ofLittleEndian, UInt8.toNat_ofNat']
  omega

theorem littleEndian_ofLittleEndian {bs : List UInt8} (h : bs.length = 4) :
    Wire.littleEndian (ofLittleEndian bs) = bs := by
  match bs, h with
  | [a, b, c, d], _ =>
    have ha := a.toNat_lt
    have hb := b.toNat_lt
    have hc := c.toNat_lt
    have hd := d.toNat_lt
    simp only [Wire.littleEndian, ofLittleEndian, List.cons.injEq, and_true, ← UInt8.toNat_inj,
      UInt8.toNat_ofNat']
    omega

theorem ofLittleEndian_lt (bs : List UInt8) : ofLittleEndian bs < 256 ^ bs.length := by
  induction bs with
  | nil => simp [ofLittleEndian]
  | cons b bs ih =>
    have := b.toNat_lt
    rw [ofLittleEndian, List.length_cons, Nat.pow_succ]
    omega

/-! ### Reading what was written -/

/-- A truth value is read where one of its two bytes is. -/
theorem reads_bool {c c' : Cursor} {a : Bool} :
    Reads bool c a c' ↔ Reads byte c (if a then 1 else 0) c' := by
  constructor
  · intro h
    obtain ⟨_, _, hhere, h⟩ := reads_bind.mp h
    obtain ⟨rfl, rfl⟩ := reads_cursor.mp hhere
    obtain ⟨b, c₁, hb, h⟩ := reads_bind.mp h
    split at h
    · obtain ⟨rfl, rfl⟩ := reads_pure.mp h
      rwa [‹b = 0›] at hb
    · split at h
      · obtain ⟨rfl, rfl⟩ := reads_pure.mp h
        rwa [‹b = 1›] at hb
      · exact absurd h not_reads_fail
  · intro h
    refine reads_bind.mpr ⟨_, _, reads_cursor.mpr ⟨rfl, rfl⟩, reads_bind.mpr ⟨_, _, h, ?_⟩⟩
    cases a <;> simp

theorem takes_bool (b : Bool) : Takes bool (Wire.bool b) b := by
  intro offset rest
  exact reads_bool.mpr (Takes.byte _ offset rest)

theorem takes_float (x : Binary32) : Takes float (Wire.float x) x.flush := by
  rw [Wire.float, Binary32.flush]
  split
  · exact (Takes.byte 0).map (Takes.pure _)
  · rename_i hx
    have hfirst : UInt8.ofNat x.exponentFirst ≠ 0 := by
      intro h
      have := congrArg UInt8.toNat h
      rw [UInt8.toNat_ofNat', UInt8.toNat_zero, ← x.exponentField_eq] at this
      exact hx this
    apply Takes.byte_bind
    rw [if_neg hfirst]
    apply (Takes.bytes [_, _, _]).map
    have hn : ofLittleEndian (Wire.littleEndian x.exponentFirst) = x.exponentFirst :=
      ofLittleEndian_littleEndian x.exponentFirst_lt
    rw [Wire.littleEndian] at hn
    rw [hn, Binary32.ofExponentFirst_exponentFirst]
    exact Takes.pure x

theorem takeWhile_content {content rest : List UInt8} (hne : ∀ b ∈ content, b ≠ 0) :
    (content ++ 0 :: rest).takeWhile (· ≠ 0) = content := by
  rw [List.takeWhile_append_of_pos (by simpa using hne), List.takeWhile_cons_of_neg (by simp),
    List.append_nil]

/-- A text is read from the bytes before the first zero byte, which is passed. -/
theorem reads_string_content {content rest : List UInt8} (hne : ∀ b ∈ content, b ≠ 0)
    (offset : Nat) : Reads string ⟨offset, content ++ 0 :: rest⟩ (Utf8.decodeLossy content)
      ⟨offset + (content.length + 1), rest⟩ := by
  simp only [Reads, string, takeWhile_content hne, Cursor.remaining, Cursor.advance]
  rw [if_pos (by simp)]
  simp

theorem reads_string {c c' : Cursor} {s : String} (h : Reads string c s c') :
    ∃ content, (∀ b ∈ content, b ≠ 0) ∧ c.rest = content ++ 0 :: c'.rest ∧
      c'.offset = c.offset + (content.length + 1) ∧ s = Utf8.decodeLossy content := by
  obtain ⟨offset, rest⟩ := c
  by_cases hz : (0 : UInt8) ∈ rest
  · obtain ⟨content, rest', rfl, hzero⟩ := List.eq_append_cons_of_mem hz
    have hne : ∀ b ∈ content, b ≠ 0 := fun b hb h0 => hzero (h0 ▸ hb)
    obtain ⟨rfl, rfl⟩ := h.unique (reads_string_content hne offset)
    exact ⟨content, hne, rfl, rfl, rfl⟩
  · have hne : ∀ b ∈ rest, b ≠ 0 := fun b hb h0 => hz (h0 ▸ hb)
    have hall : rest.takeWhile (· ≠ 0) = rest :=
      List.takeWhile_eq_self_iff.mpr (by simpa using hne)
    simp only [Reads, string, hall, Cursor.remaining, Nat.lt_irrefl, ↓reduceIte] at h
    simp [underflow] at h

theorem takes_string {s : String} (hs : Char.ofNat 0 ∉ s.toList) :
    Takes string (Wire.string s) s := by
  intro offset rest
  have h : Reads string ⟨offset, Utf8.encode s ++ 0 :: rest⟩ _ _ :=
    reads_string_content (Utf8.ne_zero_of_mem_encode hs) offset
  rw [Utf8.decodeLossy_encode] at h
  simpa [Wire.string] using h

/-! ### What is read -/

theorem zero_notMem_of_reads_string {c c' : Cursor} {s : String} (h : Reads string c s c') :
    Char.ofNat 0 ∉ s.toList := by
  obtain ⟨content, hne, -, -, rfl⟩ := reads_string h
  exact Utf8.zero_notMem_decodeLossy hne

theorem flush_of_reads_float {c c' : Cursor} {x : Binary32} (h : Reads float c x c') :
    x.flush = x := by
  obtain ⟨first, c1, -, h⟩ := reads_bind.mp h
  split at h
  · obtain ⟨rfl, -⟩ := reads_pure.mp h
    rfl
  · rename_i hfirst
    obtain ⟨rest, c2, hrest, h⟩ := reads_bind.mp h
    obtain ⟨rfl, -⟩ := reads_pure.mp h
    obtain ⟨hlen, -⟩ := reads_bytes.mp hrest
    have hn := ofLittleEndian_lt (first :: rest)
    rw [List.length_cons, hlen] at hn
    have hfield := Binary32.exponentField_ofExponentFirst hn
    rw [Binary32.flush, if_neg]
    rw [hfield, ofLittleEndian]
    have := first.toNat_lt
    have hpos : first.toNat ≠ 0 := fun h0 => hfirst (UInt8.toNat_inj.mp h0)
    omega

end Reader

end WireSchema
