import Mathlib.Algebra.Order.Ring.Nat
import Mathlib.Data.Nat.Log
import Mathlib.Tactic.Ring
import WireSchema.Number.Binary64

/-! Numbers of the 32-bit format taken to the 64-bit format and back. A magnitude above zero has one
significand and one exponent in each format that holds it; rounding finds these wherever the
magnitude comes from, so that nothing is lost on the way through a wider format. -/

namespace WireSchema

namespace Format

variable {f : Format} {m q : Nat} {e e' : Int}

/-! ### Rounding what a format holds -/

/-- A significand and an exponent as they are packed: the significand has its leading one, or the
exponent is the least. -/
structure Canonical (f : Format) (m : Nat) (e : Int) : Prop where
  least : f.minExponent ≤ e
  lt : m < 2 * f.fractions
  leading : m < f.fractions → e = f.minExponent

/-- The number of magnitudes below one. -/
def pack (f : Format) (m : Nat) (e : Int) : Nat := (e - f.minExponent).toNat * f.fractions + m

theorem fractions_eq (f : Format) : f.fractions = 2 ^ (f.precision - 1) := Nat.one_shiftLeft _

theorem fractions_pos (f : Format) : 0 < f.fractions := by
  rw [fractions_eq]
  exact Nat.two_pow_pos _

theorem unpack_pack (h : f.Canonical m e) : f.unpack (f.pack m e) = (m, e) := by
  have hpos := f.fractions_pos
  obtain ⟨hleast, hlt, hleading⟩ := h
  by_cases hm : m < f.fractions
  · obtain rfl := hleading hm
    simp [unpack, pack, hm]
  · obtain ⟨k, rfl⟩ : ∃ k : Nat, e = f.minExponent + k := ⟨(e - f.minExponent).toNat, by omega⟩
    obtain ⟨r, rfl⟩ := Nat.exists_eq_add_of_le (Nat.le_of_not_lt hm)
    have hr : r < f.fractions := by omega
    have hpack : f.pack (f.fractions + r) (f.minExponent + k) = (k + 1) * f.fractions + r := by
      rw [pack, add_sub_cancel_left, Int.toNat_natCast]
      ring
    have hle : f.fractions ≤ (k + 1) * f.fractions + r :=
      (Nat.le_mul_of_pos_left _ (Nat.succ_pos k)).trans (Nat.le_add_right _ _)
    rw [hpack, unpack, if_neg (Nat.not_lt.mpr hle), Nat.mul_add_mod', Nat.mod_eq_of_lt hr,
      Nat.mul_comm, Nat.mul_add_div hpos, Nat.div_eq_of_lt hr]
    simp only [Prod.mk.injEq, true_and]
    omega

theorem canonical_unpack (f : Format) (magnitude : Nat) :
    f.Canonical (f.unpack magnitude).1 (f.unpack magnitude).2 ∧
      f.pack (f.unpack magnitude).1 (f.unpack magnitude).2 = magnitude := by
  have hpos := f.fractions_pos
  have hdiv := Nat.div_add_mod' magnitude f.fractions
  have hmod := Nat.mod_lt magnitude hpos
  rw [unpack]
  split
  · rename_i hlt
    exact ⟨⟨le_refl _, by dsimp only; omega, fun _ => rfl⟩, by simp [pack]⟩
  · rename_i hge
    have hone : 1 ≤ magnitude / f.fractions := (Nat.one_le_div_iff hpos).mpr (Nat.le_of_not_lt hge)
    refine ⟨⟨by dsimp only; omega, by dsimp only; omega, fun h => by dsimp only at h; omega⟩, ?_⟩
    obtain ⟨k, hk⟩ := Nat.exists_eq_add_of_le' hone
    rw [hk] at hdiv ⊢
    have hexponent : (f.minExponent + ((k + 1 : Nat) : Int) - 1 - f.minExponent).toNat = k := by
      omega
    rw [pack, hexponent]
    conv_rhs => rw [← hdiv]
    ring

theorem divideToEven_mul (q : Nat) {d : Nat} (hd : 0 < d) : divideToEven (q * d) d = q := by
  simp [divideToEven, Nat.mul_div_cancel _ hd, hd]

theorem log2_mul_two_pow (hm : m ≠ 0) (k : Nat) : (m * 2 ^ k).log2 = m.log2 + k := by
  rw [Nat.log2_eq_iff (Nat.mul_ne_zero hm (Nat.two_pow_pos k).ne'), Nat.pow_add, Nat.add_right_comm,
    Nat.pow_add]
  exact ⟨Nat.mul_le_mul_right _ (Nat.log2_self_le hm),
    Nat.mul_lt_mul_of_pos_right Nat.lt_log2_self (Nat.two_pow_pos k)⟩

theorem floorLog2_ratio (hm : m ≠ 0) (e : Int) :
    floorLog2 (m <<< e.toNat) (1 <<< (-e).toNat) = m.log2 + e := by
  have hlog : ((m * 2 ^ e.toNat).log2 : Int) - ((2 ^ (-e).toNat).log2 : Nat) = m.log2 + e := by
    rw [log2_mul_two_pow hm, Nat.log2_two_pow]
    omega
  rw [floorLog2, Nat.shiftLeft_eq m, Nat.one_shiftLeft, hlog, if_pos]
  rw [Nat.shiftLeft_eq, Nat.shiftLeft_eq, ← Nat.pow_add, Nat.mul_assoc, ← Nat.pow_add]
  have hexponents : (-e).toNat + (m.log2 + e).toNat =
      m.log2 + (e.toNat + (-(m.log2 + e)).toNat) := by omega
  rw [hexponents, Nat.pow_add]
  exact Nat.mul_le_mul_right _ (Nat.log2_self_le hm)

/-- A magnitude that the format holds is rounded to itself, in whatever way it is given as a
significand and an exponent. -/
theorem round_ratio (hq : q ≠ 0) (h : f.Canonical q e')
    (heq : m * 2 ^ (e - e').toNat = q * 2 ^ (e' - e).toNat) :
    f.round (m <<< e.toNat) (1 <<< (-e).toNat) = min f.infinity (f.pack q e') := by
  have hm : m ≠ 0 := by
    rintro rfl
    simp [hq] at heq
  have hlog : (m.log2 : Int) + e = q.log2 + e' := by
    have := congrArg Nat.log2 heq
    rw [log2_mul_two_pow hm, log2_mul_two_pow hq] at this
    omega
  have hexponent : max f.minExponent (m.log2 + e - (f.precision - 1 : Nat)) = e' := by
    obtain ⟨hleast, hlt, hleading⟩ := h
    rw [fractions_eq] at hlt hleading
    rw [← Nat.pow_succ', ← Nat.log2_lt hq] at hlt
    rw [← Nat.log2_lt hq] at hleading
    omega
  have hexact : (m <<< e.toNat) <<< (-e').toNat = q * ((1 <<< (-e).toNat) <<< e'.toNat) := by
    simp only [Nat.shiftLeft_eq, Nat.one_mul, Nat.mul_assoc, ← Nat.pow_add]
    apply Nat.eq_of_mul_eq_mul_right (Nat.two_pow_pos ((e - e').toNat + (e' - e).toNat))
    have hleft : e.toNat + (-e').toNat + ((e - e').toNat + (e' - e).toNat) =
        (e - e').toNat + ((-e).toNat + e'.toNat + (e - e').toNat) := by omega
    have hright : (-e).toNat + e'.toNat + ((e - e').toNat + (e' - e).toNat) =
        (e' - e).toNat + ((-e).toNat + e'.toNat + (e - e').toNat) := by omega
    rw [Nat.mul_assoc, Nat.mul_assoc, ← Nat.pow_add, ← Nat.pow_add, hleft, hright, Nat.pow_add,
      Nat.pow_add 2 (e' - e).toNat, ← Nat.mul_assoc, ← Nat.mul_assoc, heq]
  have hpositive : 0 < (1 <<< (-e).toNat) <<< e'.toNat := by
    rw [Nat.one_shiftLeft, Nat.shiftLeft_eq]
    exact Nat.mul_pos (Nat.two_pow_pos _) (Nat.two_pow_pos _)
  have hn : m <<< e.toNat ≠ 0 := by
    rw [Nat.shiftLeft_eq]
    exact Nat.mul_ne_zero hm (Nat.two_pow_pos _).ne'
  rw [round, if_neg hn, floorLog2_ratio hm, hexponent]
  simp only [hexact, divideToEven_mul q hpositive]
  rfl

end Format

/-! ### Signs and magnitudes -/

namespace Binary32

theorem ofMagnitude_self (x : Binary32) : ofMagnitude x.negative x.magnitude = x := by
  obtain ⟨bits⟩ := x
  have hlt : bits.toNat < 0x100000000 := bits.toNat_lt
  have hbits : (if Binary32.negative ⟨bits⟩ then 0x80000000 else 0) +
      Binary32.magnitude ⟨bits⟩ % 0x80000000 = bits.toNat := by
    by_cases hn : 0x80000000 ≤ bits.toNat
    · simp only [negative, magnitude, hn, decide_true, ↓reduceIte]
      omega
    · simp only [negative, magnitude, hn, decide_false, Bool.false_eq_true, ↓reduceIte]
      omega
  rw [ofMagnitude, hbits, UInt32.ofNat_toNat]

end Binary32

namespace Binary64

variable {b : Bool} {magnitude : Nat}

theorem toNat_bits_ofMagnitude (h : magnitude < 0x8000000000000000) :
    (ofMagnitude b magnitude).bits.toNat = (if b then 0x8000000000000000 else 0) + magnitude := by
  rw [ofMagnitude, Nat.mod_eq_of_lt h]
  apply UInt64.toNat_ofNat_of_lt
  show _ < 0x10000000000000000
  split <;> omega

theorem negative_ofMagnitude (h : magnitude < 0x8000000000000000) :
    (ofMagnitude b magnitude).negative = b := by
  rw [negative, toNat_bits_ofMagnitude h]
  cases b
  · simpa using h
  · simp

theorem magnitude_ofMagnitude (h : magnitude < 0x8000000000000000) :
    (ofMagnitude b magnitude).magnitude = magnitude := by
  rw [Binary64.magnitude, toNat_bits_ofMagnitude h]
  split <;> omega

theorem fractions_eq : format.fractions = 2 ^ 52 := by decide

theorem minExponent_eq : format.minExponent = -1074 := by decide

theorem infinity_eq : format.infinity = 2047 * 2 ^ 52 := by decide

theorem narrow_ofMagnitude (h : magnitude < format.infinity) : (ofMagnitude b magnitude).narrow =
    Binary32.ofMagnitude b
      (Binary32.format.round (format.ratio magnitude).1 (format.ratio magnitude).2) := by
  have hlt : magnitude < 0x8000000000000000 := by
    rw [infinity_eq] at h
    omega
  have hfinite : (ofMagnitude b magnitude).isFinite = true := by
    rw [isFinite, magnitude_ofMagnitude hlt]
    exact decide_eq_true h
  rw [narrow, if_pos hfinite, magnitude_ofMagnitude hlt, negative_ofMagnitude hlt]

end Binary64

/-! ### There and back -/

namespace Binary32

theorem lt_of_canonical {m : Nat} {e : Int} (h : format.Canonical m e)
    (hfinite : format.pack m e < format.infinity) : m < 2 ^ 24 ∧ -149 ≤ e ∧ e < 106 := by
  obtain ⟨hleast, hlt, -⟩ := h
  have hfractions : format.fractions = 2 ^ 23 := by decide
  have hexponent : format.minExponent = -149 := by decide
  have hinfinity : format.infinity = 255 * 2 ^ 23 := by decide
  rw [hexponent] at hleast
  rw [hfractions] at hlt
  rw [Format.pack, hfractions, hexponent, hinfinity] at hfinite
  omega

/-- What the 32-bit format holds above zero, the 64-bit format holds with its significand moved
up. -/
theorem canonical_widen {m : Nat} {e : Int} (hm : m ≠ 0) (hlt : m < 2 ^ 24) (hleast : -149 ≤ e) :
    Binary64.format.Canonical (m * 2 ^ (52 - m.log2)) (e - (52 - m.log2 : Nat)) := by
  have hlog : m.log2 < 24 := (Nat.log2_lt hm).mpr hlt
  have hq : m * 2 ^ (52 - m.log2) ≠ 0 := Nat.mul_ne_zero hm (Nat.two_pow_pos _).ne'
  have hlogq : (m * 2 ^ (52 - m.log2)).log2 = 52 := by
    rw [Format.log2_mul_two_pow hm]
    omega
  refine ⟨by rw [Binary64.minExponent_eq]; omega, ?_, fun h => ?_⟩
  · rw [Binary64.fractions_eq, ← Nat.pow_succ', ← Nat.log2_lt hq, hlogq]
    decide
  · rw [Binary64.fractions_eq, ← Nat.log2_lt hq, hlogq] at h
    exact absurd h (by decide)

/-- A finite number of 32 bits comes back from the 64-bit format as it is, zeros with their
signs. -/
theorem narrow_widen {x : Binary32} (hx : x.isFinite = true) : x.widen.narrow = x := by
  obtain ⟨hcanonical, hpack⟩ := format.canonical_unpack x.magnitude
  have hfinite : x.magnitude < format.infinity := by simpa [isFinite] using hx
  obtain ⟨m, e, hunpack⟩ : ∃ m e, format.unpack x.magnitude = (m, e) := ⟨_, _, rfl⟩
  rw [hunpack] at hcanonical hpack
  dsimp only at hcanonical hpack
  obtain ⟨hlt, hleast, hgreatest⟩ := lt_of_canonical hcanonical (hpack ▸ hfinite)
  have hwiden : x.widen = Binary64.ofMagnitude x.negative
      (Binary64.format.round (m <<< e.toNat) (1 <<< (-e).toNat)) := by
    rw [widen, if_pos hx, Format.ratio, hunpack]
  suffices x.widen.narrow = ofMagnitude x.negative x.magnitude by rw [this, ofMagnitude_self]
  by_cases hm : m = 0
  · subst hm
    have hzero : x.magnitude = 0 := by
      rw [← hpack, hcanonical.leading format.fractions_pos]
      decide
    rw [hwiden, hzero, Nat.zero_shiftLeft, Format.round, if_pos rfl,
      Binary64.narrow_ofMagnitude (by decide)]
    rfl
  · -- moved up by `k`, the significand has its leading one at bit 52, and both formats hold the
    -- same magnitude
    obtain ⟨k, hk⟩ : ∃ k, 52 - m.log2 = k := ⟨_, rfl⟩
    have hwide := canonical_widen hm hlt hleast
    rw [hk] at hwide
    have hq : m * 2 ^ k ≠ 0 := Nat.mul_ne_zero hm (Nat.two_pow_pos k).ne'
    have hforth : m * 2 ^ (e - (e - k)).toNat = m * 2 ^ k * 2 ^ (e - k - e).toNat := by
      rw [show (e - (e - (k : Int))).toNat = k by omega,
        show (e - (k : Int) - e).toNat = 0 by omega, Nat.pow_zero, Nat.mul_one]
    have hpacked : Binary64.format.pack (m * 2 ^ k) (e - k) < Binary64.format.infinity := by
      have hless := hwide.lt
      rw [Binary64.fractions_eq] at hless
      rw [Format.pack, Binary64.infinity_eq, Binary64.fractions_eq, Binary64.minExponent_eq]
      omega
    rw [hwiden, Format.round_ratio hq hwide hforth, Nat.min_eq_right (Nat.le_of_lt hpacked),
      Binary64.narrow_ofMagnitude hpacked, Format.ratio, Format.unpack_pack hwide]
    dsimp only
    rw [Format.round_ratio hm hcanonical hforth.symm, hpack,
      Nat.min_eq_right (Nat.le_of_lt hfinite)]

end Binary32

end WireSchema
