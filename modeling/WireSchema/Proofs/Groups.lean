import Mathlib.Algebra.BigOperators.Ring.List
import Mathlib.Algebra.Ring.Nat
import WireSchema.Proofs.Advancing
import WireSchema.Proofs.Varint

/-! Variable-length integers read from any bytes, written in the shortest way or not: which bytes
make up a number, what they stand for, and where too few of them are left. Of all bytes that are
read as a number, those that it is written as are the fewest. -/

namespace WireSchema

namespace Varint

/-- How many of some bytes make up a number of at most `k` groups: those up to the first one without
the high bit, or `k` if there is none such among the next `k`. -/
def extent (k : Nat) (bytes : List UInt8) : Nat :=
  ((bytes.take k).findIdx? (· < 128)).elim k (· + 1)

/-- What groups stand for: seven bits each, least significant first. -/
def value (bytes : List UInt8) : Nat := (bytes.mapIdx fun i b => b.toNat % 128 * 2 ^ (7 * i)).sum

variable {k : Nat} {b : UInt8} {bytes : List UInt8}

@[simp] theorem extent_nil : extent k [] = k := by simp [extent]

theorem extent_last (h : b < 128) : extent (k + 1) (b :: bytes) = 1 := by
  simp [extent, List.findIdx?_cons, h]

theorem extent_next (h : ¬ b < 128) : extent (k + 1) (b :: bytes) = extent k bytes + 1 := by
  simp only [extent, List.take_succ_cons, List.findIdx?_cons, h, decide_false,
    Bool.false_eq_true, ↓reduceIte]
  cases (bytes.take k).findIdx? (· < 128) <;> rfl

theorem extent_pos : 0 < extent (k + 1) bytes := by
  unfold extent
  cases (bytes.take (k + 1)).findIdx? (· < 128) <;> exact Nat.succ_pos _

@[simp] theorem value_nil : value [] = 0 := rfl

theorem value_cons : value (b :: bytes) = b.toNat % 128 + 128 * value bytes := by
  have hplace : ∀ i : Nat, 2 ^ (7 * (i + 1)) = 128 * 2 ^ (7 * i) := by
    intro i
    rw [Nat.mul_succ, Nat.pow_add, Nat.mul_comm]
  have hrest : (bytes.mapIdx fun i b => b.toNat % 128 * 2 ^ (7 * (i + 1))).sum =
      128 * value bytes := by
    simp only [value, hplace, Nat.mul_left_comm _ 128, List.mapIdx_eq_zipIdx_map]
    exact List.sum_map_mul_left ..
  rw [value, List.mapIdx_cons, List.sum_cons, hrest, Nat.mul_zero, Nat.pow_zero, Nat.mul_one]

theorem value_lt (bytes : List UInt8) : value bytes < 128 ^ bytes.length := by
  induction bytes with
  | nil => exact Nat.one_pos
  | cons b bytes ih =>
    rw [value_cons, List.length_cons, Nat.pow_succ]
    omega

/-- A number is written with no more groups than it has. -/
theorem length_groups_le {j n : Nat} (h : n < 128 ^ (j + 1)) : (groups k n).length ≤ j + 1 := by
  induction k generalizing j n with
  | zero => exact Nat.zero_le _
  | succ k ih =>
    rw [groups]
    split
    · exact Nat.succ_le_succ (Nat.zero_le j)
    · rename_i hnext
      cases j with
      | zero => exact absurd h hnext
      | succ j =>
        have hdiv : n / 128 < 128 ^ (j + 1) := by
          rw [Nat.pow_succ] at h
          exact (Nat.div_lt_iff_lt_mul (by decide)).mpr h
        exact Nat.succ_le_succ (ih hdiv)

/-- However many groups a number is read from, it is written with no more. -/
theorem length_encode_le {n : UInt32} (hpos : 0 < bytes.length)
    (h : n.toNat = value bytes % 2 ^ 32) : (encode n).length ≤ bytes.length := by
  obtain ⟨j, hj⟩ := Nat.exists_eq_succ_of_ne_zero (Nat.ne_of_gt hpos)
  have hvalue := value_lt bytes
  rw [hj] at hvalue ⊢
  exact length_groups_le (h ▸ Nat.lt_of_le_of_lt (Nat.mod_le _ _) hvalue)

end Varint

namespace Reader

open Varint (extent value)

variable {c c' : Cursor} {k : Nat} {v : UInt32}

theorem reads_byte_cons (offset : Nat) (b : UInt8) (rest : List UInt8) :
    Reads byte ⟨offset, b :: rest⟩ b ⟨offset + 1, rest⟩ := reads_byte.mpr ⟨rfl, rfl⟩

/-! ### Groups -/

/-- Groups of which all are there are read for what they stand for, and no byte behind them is. By
induction on the bound: a byte with the high bit leaves one group less. -/
theorem reads_groups (h : extent k c.rest ≤ c.remaining) :
    Reads (groups k) c (value (c.rest.take (extent k c.rest))) (c.advance (extent k c.rest)) := by
  induction k generalizing c with
  | zero => exact reads_pure.mpr ⟨rfl, rfl⟩
  | succ k ih =>
    obtain ⟨offset, _ | ⟨b, rest⟩⟩ := c
    · rw [Varint.extent_nil] at h
      exact absurd h (Nat.not_succ_le_zero k)
    · refine reads_bind.mpr ⟨b, _, reads_byte_cons offset b rest, ?_⟩
      by_cases hb : b < 128
      · have hvalue : value [b] = b.toNat := by
          rw [Varint.value_cons, Varint.value_nil]
          exact Nat.mod_eq_of_lt hb
        rw [if_pos hb, Varint.extent_last hb]
        exact reads_pure.mpr ⟨hvalue.symm, rfl⟩
      · rw [Varint.extent_next hb] at h ⊢
        have hrest := ih (c := ⟨offset + 1, rest⟩) (Nat.le_of_succ_le_succ h)
        rw [if_neg hb, List.take_succ_cons, Varint.value_cons,
          Nat.add_comm (extent k rest), ← Cursor.advance_advance]
        exact reads_bind.mpr ⟨_, _, hrest, reads_pure.mpr ⟨rfl, rfl⟩⟩

/-- Groups that the bytes end within are read up to there, where one more byte is needed. -/
theorem fails_groups (h : c.remaining < extent k c.rest) :
    Fails (groups k) c (.underflow (c.offset + c.remaining) 1) ∧
    (groups k c).cursor = c.advance c.remaining := by
  induction k generalizing c with
  | zero => exact absurd h (Nat.not_lt_zero _)
  | succ k ih =>
    obtain ⟨offset, _ | ⟨b, rest⟩⟩ := c
    · exact ⟨rfl, rfl⟩
    · have hbyte := reads_byte_cons offset b rest
      by_cases hb : b < 128
      · rw [Varint.extent_last hb] at h
        exact absurd h (Nat.not_lt.mpr (Nat.succ_le_succ (Nat.zero_le _)))
      · rw [Varint.extent_next hb] at h
        obtain ⟨hfails, hcursor⟩ := ih (c := ⟨offset + 1, rest⟩) (Nat.lt_of_succ_lt_succ h)
        have hoffset : offset + 1 + rest.length = offset + (rest.length + 1) := by omega
        simp only [Cursor.remaining, Cursor.advance, hoffset] at hfails hcursor
        refine ⟨fails_bind.mpr (.inr ⟨b, _, hbyte, ?fails⟩),
          (cursor_bind_of_reads hbyte).trans ?cursor⟩
        case fails =>
          rw [if_neg hb]
          exact fails_bind.mpr (.inl hfails)
        case cursor =>
          rw [if_neg hb, cursor_bind_of_fails hfails]
          exact hcursor

/-! ### Numbers -/

theorem reads_uint (h : extent 5 c.rest ≤ c.remaining) :
    Reads uint c (.ofNat (value (c.rest.take (extent 5 c.rest)))) (c.advance (extent 5 c.rest)) :=
  reads_bind.mpr ⟨_, _, reads_groups h, reads_pure.mpr ⟨rfl, rfl⟩⟩

theorem fails_uint (h : c.remaining < extent 5 c.rest) :
    Fails uint c (.underflow (c.offset + c.remaining) 1) ∧
    (uint c).cursor = c.advance c.remaining := by
  obtain ⟨hfails, hcursor⟩ := fails_groups h
  exact ⟨fails_bind.mpr (.inl hfails), (cursor_bind_of_fails hfails).trans hcursor⟩

theorem extent_le_of_reads_uint (h : Reads uint c v c') : extent 5 c.rest ≤ c.remaining :=
  Nat.le_of_not_lt fun hshort => h.not_fails (fails_uint hshort).1

/-- The bytes that a number is written as are no more than those it is read from. -/
theorem length_encode_le_of_reads (h : Reads uint c v c') :
    (Varint.encode v).length ≤ extent 5 c.rest := by
  have hextent := extent_le_of_reads_uint h
  have hlength : (c.rest.take (extent 5 c.rest)).length = extent 5 c.rest :=
    List.length_take_of_le hextent
  have hpos : 0 < (c.rest.take (extent 5 c.rest)).length := by
    rw [hlength]
    exact Varint.extent_pos
  obtain ⟨rfl, -⟩ := (reads_uint hextent).unique h
  exact (Varint.length_encode_le hpos (UInt32.toNat_ofNat' ..)).trans (Nat.le_of_eq hlength)

/-- Numbers are read from the groups that are next, at most five. The bytes are too few exactly if
they end within these groups, and then they are read up to their end. If not, the groups and no more
are read, for what they stand for modulo `2^32`; and the number is written with no more bytes, is
read back from them, and is read from no fewer. -/
theorem uint_exact (c : Cursor) :
    let k := extent 5 c.rest
    ((∃ e, Fails uint c e) ↔ c.remaining < k) ∧
    (∀ e, Fails uint c e → e = .underflow (c.offset + c.remaining) 1 ∧
      (uint c).cursor = c.advance c.remaining) ∧
    (k ≤ c.remaining → ∃ v, Reads uint c v (c.advance k) ∧
      v.toNat = value (c.rest.take k) % 2 ^ 32 ∧
      (Varint.encode v).length ≤ k ∧ Takes uint (Varint.encode v) v ∧
      ∀ bs offset c', Reads uint ⟨offset, bs⟩ v c' → (Varint.encode v).length ≤ bs.length) := by
  intro k
  have hshort : ∀ {e}, Fails uint c e → c.remaining < k := fun he =>
    Nat.lt_of_not_le fun h => (reads_uint h).not_fails he
  refine ⟨⟨fun ⟨_, he⟩ => hshort he, fun h => ⟨_, (fails_uint h).1⟩⟩, fun e he => ?fails,
    fun h => ?reads⟩
  case fails =>
    obtain ⟨hfails, hcursor⟩ := fails_uint (hshort he)
    exact ⟨Except.error.inj (he.symm.trans hfails), hcursor⟩
  case reads =>
    have hreads := reads_uint h
    exact ⟨_, hreads, UInt32.toNat_ofNat' .., length_encode_le_of_reads hreads, takes_uint _,
      fun bs offset c' h' => (length_encode_le_of_reads h').trans (extent_le_of_reads_uint h')⟩

/-- Zero groups may pad a number; of a fifth byte, its high bits count for nothing, and the next one
is not read. -/
example : uint (.start [0x87, 0x80, 0x00, 9]) = ⟨.ok 7, ⟨3, [9]⟩, []⟩ ∧
    uint (.start [0xFF, 0xFF, 0xFF, 0xFF, 0xFF, 1]) = ⟨.ok 0xFFFFFFFF, ⟨5, [1]⟩, []⟩ ∧
    uint (.start [0xFF, 0xFF]) = ⟨.error (.underflow 2 1), ⟨2, []⟩, []⟩ := by decide

end Reader

end WireSchema
