import Mathlib.Algebra.Group.Nat.Defs
import WireSchema.Bytes.Varint
import WireSchema.Proofs.Reader

/-! Variable-length integers read back: `Reader.uint` takes the bytes of `Varint.encode`,
`Reader.int` those of the folded number. -/

namespace WireSchema

namespace Varint

theorem groups_ne_nil {k n : Nat} : groups (k + 1) n ≠ [] := by
  rw [groups]
  split <;> simp

theorem encode_ne_nil (n : UInt32) : encode n ≠ [] := groups_ne_nil

/-- Folding onto the unsigned numbers loses nothing, at either end of the range. -/
theorem unzigzag_zigzag (n : Int32) : unzigzag (zigzag n) = n := by
  have hlow := Int32.le_toInt n
  have hhigh := Int32.toInt_lt n
  unfold zigzag
  split
  · rename_i h
    have hn : (UInt32.ofNat (2 * n.toInt.toNat)).toNat = 2 * n.toInt.toNat := by
      rw [UInt32.toNat_ofNat']
      omega
    rw [unzigzag, hn, if_pos (by omega)]
    have hv : ((2 * n.toInt.toNat : Nat) : Int) / 2 = n.toInt := by omega
    rw [hv, Int32.ofInt_toInt]
  · rename_i h
    have hn : (UInt32.ofNat (2 * (-n.toInt).toNat - 1)).toNat = 2 * (-n.toInt).toNat - 1 := by
      rw [UInt32.toNat_ofNat']
      omega
    rw [unzigzag, hn, if_neg (by omega)]
    have hv : -(((2 * (-n.toInt).toNat - 1) / 2 : Nat) : Int) - 1 = n.toInt := by omega
    rw [hv, Int32.ofInt_toInt]

end Varint

namespace Reader

/-- Groups read back, as long as there are enough of them for the number. -/
theorem takes_groups {k n : Nat} (hn : n < 128 ^ k) : Takes (groups k) (Varint.groups k n) n := by
  induction k generalizing n with
  | zero =>
    obtain rfl : n = 0 := by simpa using hn
    exact Takes.pure 0
  | succ k ih =>
    rw [Varint.groups]
    by_cases hlast : n < 128
    · have hb : (UInt8.ofNat n).toNat = n := by
        rw [UInt8.toNat_ofNat']
        omega
      rw [if_pos hlast]
      apply (Takes.byte _).map
      rw [if_pos (by rw [UInt8.lt_iff_toNat_lt, hb]; exact hlast), hb]
      exact Takes.pure n
    · have hb : (UInt8.ofNat (128 + n % 128)).toNat = 128 + n % 128 := by
        rw [UInt8.toNat_ofNat']
        omega
      have hdiv : n / 128 < 128 ^ k := by
        rw [Nat.pow_succ] at hn
        exact (Nat.div_lt_iff_lt_mul (by decide)).mpr hn
      rw [if_neg hlast]
      apply Takes.byte_bind
      rw [if_neg (by rw [UInt8.lt_iff_toNat_lt, hb]; simp)]
      apply (ih hdiv).map
      have hsum : (UInt8.ofNat (128 + n % 128)).toNat % 128 + 128 * (n / 128) = n := by
        rw [hb]
        omega
      rw [hsum]
      exact Takes.pure n

theorem takes_uint (n : UInt32) : Takes uint (Varint.encode n) n := by
  have hn := n.toNat_lt
  apply (takes_groups (by omega)).map
  rw [UInt32.ofNat_toNat]
  exact Takes.pure n

/-- A byte without the high bit is a number in full. -/
theorem reads_uint_of_byte {b : UInt8} {c c' : Cursor} (h : Reads byte c b c') (hb : b < 128) :
    Reads uint c (UInt32.ofNat b.toNat) c' := by
  refine reads_bind.mpr ⟨b.toNat, c', reads_bind.mpr ⟨b, c', h, ?_⟩, reads_pure.mpr ⟨rfl, rfl⟩⟩
  rw [if_pos hb]
  exact reads_pure.mpr ⟨rfl, rfl⟩

theorem fails_uint_of_byte {c : Cursor} {e : BufferError} (h : Fails byte c e) : Fails uint c e :=
  fails_bind.mpr (.inl (fails_bind.mpr (.inl h)))

theorem takes_int (n : Int32) : Takes int (Varint.encode (Varint.zigzag n)) n := by
  apply (takes_uint _).map
  rw [Varint.unzigzag_zigzag]
  exact Takes.pure n

end Reader

end WireSchema
