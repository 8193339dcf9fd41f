import WireSchema.Compression.Deflate
import WireSchema.Proofs.Compression.Takes

/-! DEFLATE gives back what it compressed. Its stored blocks are read byte by byte, once the bits
left of the byte with the header of the block have been passed. -/

namespace WireSchema.Deflate

open Decompression (run_bind)

abbrev stream (bytes : List UInt8) : List Bool := bytes.flatMap bitsOf

abbrev Takes {α : Type} (m : Bits α) (bytes : List UInt8) (a : α) : Prop :=
  Decompression.Takes stream m bytes a

theorem length_bitsOf (b : UInt8) : (bitsOf b).length = 8 := by
  rw [bitsOf, List.length_map, List.length_range]

theorem length_stream (bytes : List UInt8) : (stream bytes).length = 8 * bytes.length := by
  induction bytes with
  | nil => rfl
  | cons b bytes ih =>
    rw [stream, List.flatMap_cons, List.length_append, length_bitsOf, ih, List.length_cons]
    omega

/-! ### Numbers -/

theorem run_bit (b : Bool) (rest : List Bool) : Bits.bit.run (b :: rest) = some (b, rest) := rfl

/-- The lowest bits of a number are read as the number modulo a power of two. -/
theorem run_number (k n : Nat) (rest : List Bool) :
    (Bits.number k).run ((List.range k).map n.testBit ++ rest) = some (n % 2 ^ k, rest) := by
  induction k generalizing n with
  | zero =>
    rw [Nat.pow_zero, Nat.mod_one]
    rfl
  | succ k ih =>
    have hbits : (List.range (k + 1)).map n.testBit =
        n.testBit 0 :: (List.range k).map (n / 2).testBit := by
      rw [List.range_succ_eq_map, List.map_cons, List.map_map]
      congr 2
      funext i
      exact Nat.testBit_succ n i
    have hvalue : (n.testBit 0).toNat + 2 * (n / 2 % 2 ^ k) = n % 2 ^ (k + 1) := by
      rw [Nat.pow_succ', Nat.mod_mul, Nat.testBit_zero]
      rcases Nat.mod_two_eq_zero_or_one n with h | h <;> simp [h]
    rw [hbits, Bits.number, List.cons_append, run_bind (run_bit _ _), run_bind (ih (n / 2))]
    exact congrArg (fun m => some (m, rest)) hvalue

theorem takes_byte (b : UInt8) : Takes (Bits.number 8) [b] b.toNat := by
  intro rest
  have hrun := run_number 8 b.toNat (stream rest)
  rwa [Nat.mod_eq_of_lt b.toNat_lt] at hrun

theorem bitsOf_ofNat (n : Nat) : bitsOf (UInt8.ofNat n) = (List.range 8).map n.testBit := by
  apply List.map_congr_left
  intro i hi
  have hi := List.mem_range.mp hi
  rw [UInt8.toNat_ofNat', Nat.testBit_mod_two_pow]
  simp [hi]

theorem takes_twoBytes {n : Nat} (hn : n < 0x10000) : Takes (Bits.number 16) (twoBytes n) n := by
  intro rest
  have hbits : stream (twoBytes n ++ rest) = (List.range 16).map n.testBit ++ stream rest := by
    have hhigh : (List.range 8).map (n / 256).testBit =
        ((List.range 8).map (8 + ·)).map n.testBit := by
      rw [List.map_map]
      apply List.map_congr_left
      intro i _
      rw [show n / 256 = n / 2 ^ 8 from rfl, Nat.testBit_div_two_pow, Nat.add_comm]
      rfl
    rw [show 16 = 8 + 8 from rfl, List.range_add, List.map_append, ← hhigh, List.append_assoc,
      ← bitsOf_ofNat, ← bitsOf_ofNat]
    rfl
  rw [hbits, run_number, Nat.mod_eq_of_lt (show n < 2 ^ 16 from hn)]

theorem takes_bytes (bytes : List UInt8) :
    Takes (Bits.times (Bits.number 8) bytes.length) bytes (bytes.map UInt8.toNat) := by
  induction bytes with
  | nil => exact Decompression.Takes.pure []
  | cons b bytes ih => exact (takes_byte b).bind (ih.map (Decompression.Takes.pure _))

/-! ### Blocks -/

theorem takes_lengths {bytes : List UInt8} (hlength : bytes.length < 0x10000) (out : Array UInt8) :
    Takes (do
      let length ← Bits.number 16
      let check ← Bits.number 16
      if length + check = 0xFFFF then
        let bytes ← Bits.times (Bits.number 8) length
        return out ++ (bytes.map UInt8.ofNat).toArray
      else failure)
      (twoBytes bytes.length ++ (twoBytes (0xFFFF - bytes.length) ++ bytes))
      (out ++ bytes.toArray) := by
  refine (takes_twoBytes hlength).bind ((takes_twoBytes (by omega)).bind ?_)
  rw [if_pos (by omega)]
  apply (takes_bytes bytes).map
  have hback : (bytes.map UInt8.toNat).map UInt8.ofNat = bytes := by
    rw [List.map_map]
    exact List.map_id'' (fun b => UInt8.ofNat_toNat) bytes
  rw [hback]
  exact Decompression.Takes.pure _

/-- Passing the bits of a byte that has been begun leaves whole bytes. -/
theorem run_align {skipped : List Bool} (hskipped : skipped.length < 8) (bytes : List UInt8) :
    Bits.align.run (skipped ++ stream bytes) = some ((), stream bytes) := by
  have hlength : (skipped ++ stream bytes).length % 8 = skipped.length := by
    rw [List.length_append, length_stream]
    omega
  show some ((), (skipped ++ stream bytes).drop ((skipped ++ stream bytes).length % 8)) = _
  rw [hlength, List.drop_left]

theorem takes_block {bytes : List UInt8} (hlength : bytes.length < 0x10000) (last : Bool)
    (out : Array UInt8) :
    Takes (block out) (storedBlock last bytes) (last, out ++ bytes.toArray) := by
  intro rest
  have hheader : stream (storedBlock last bytes ++ rest) = last :: false :: false ::
      (List.replicate 5 false ++ stream (twoBytes bytes.length ++
        (twoBytes (0xFFFF - bytes.length) ++ bytes) ++ rest)) := by
    have hbits : bitsOf (if last then 1 else 0) = last :: List.replicate 7 false := by
      cases last <;> rfl
    rw [storedBlock, List.cons_append, List.cons_append, List.cons_append, stream,
      List.flatMap_cons, hbits, List.append_assoc (twoBytes bytes.length)]
    rfl
  have hkind : ∀ bits, (Bits.number 2).run (false :: false :: bits) = some (0, bits) :=
    fun _ => rfl
  rw [block, hheader, run_bind (run_bit _ _), run_bind (hkind _)]
  show (stored out >>= fun out => pure (last, out)).run _ = _
  have hstored : (stored out).run (List.replicate 5 false ++ stream (twoBytes bytes.length ++
      (twoBytes (0xFFFF - bytes.length) ++ bytes) ++ rest)) =
      some (out ++ bytes.toArray, stream rest) := by
    rw [stored, run_bind (run_align (by simp) _)]
    exact takes_lengths hlength out rest
  rw [run_bind hstored]
  rfl

/-- Stored blocks are read one after the other up to the last. -/
theorem takes_blocks {k fuel : Nat} {bytes : List UInt8} (hlength : bytes.length < 65535 * (k + 1))
    (hfuel : k < fuel) (out : Array UInt8) :
    Takes (blocks fuel out) (storedBlocks k bytes) (out ++ bytes.toArray) := by
  obtain ⟨fuel, rfl⟩ : ∃ n, fuel = n + 1 := ⟨fuel - 1, by omega⟩
  induction k generalizing bytes fuel out with
  | zero => exact (takes_block (by omega) true out).map (Decompression.Takes.pure _)
  | succ k ih =>
    rw [storedBlocks]
    split
    · rename_i hshort
      exact (takes_block hshort true out).map (Decompression.Takes.pure _)
    · rename_i hlong
      have htake : (bytes.take 65535).length < 0x10000 := by
        rw [List.length_take]
        omega
      have hdrop : (bytes.drop 65535).length < 65535 * (k + 1) := by
        rw [List.length_drop]
        omega
      obtain ⟨fuel, rfl⟩ : ∃ n, fuel = n + 1 := ⟨fuel - 1, by omega⟩
      apply (takes_block htake false out).bind
      have hrest : Takes (blocks (fuel + 1) (out ++ (bytes.take 65535).toArray)) _ _ :=
        ih hdrop _ _ (by omega)
      have hsplit : (bytes.take 65535).toArray ++ (bytes.drop 65535).toArray = bytes.toArray := by
        rw [List.append_toArray, List.take_append_drop]
      rw [Array.append_assoc, hsplit] at hrest
      exact hrest

theorem length_storedBlock (last : Bool) (bytes : List UInt8) :
    (storedBlock last bytes).length = bytes.length + 5 := by
  simp [storedBlock, twoBytes]

theorem length_lt_storedBlocks (k : Nat) (bytes : List UInt8) :
    bytes.length < (storedBlocks k bytes).length := by
  induction k generalizing bytes with
  | zero =>
    rw [storedBlocks, length_storedBlock]
    omega
  | succ k ih =>
    rw [storedBlocks]
    split
    · rw [length_storedBlock]
      omega
    · have hrest := ih (bytes.drop 65535)
      rw [List.length_drop] at hrest
      rw [List.length_append, length_storedBlock, List.length_take]
      omega

theorem compress_ne_nil (bytes : List UInt8) : compress bytes ≠ [] := by
  intro h
  have hlength := length_lt_storedBlocks (bytes.length / 65535) bytes
  rw [← compress, h] at hlength
  simp at hlength

theorem decompress?_compress (bytes : List UInt8) : decompress? (compress bytes) = some bytes := by
  have hfuel : bytes.length / 65535 < (stream (compress bytes)).length := by
    have hlength := length_lt_storedBlocks (bytes.length / 65535) bytes
    rw [length_stream, compress]
    omega
  have hblocks : Takes (blocks _ #[]) (compress bytes) _ :=
    takes_blocks (Nat.lt_mul_div_succ _ (by decide)) hfuel #[]
  rw [decompress?, hblocks.run'_eq]
  simp

end WireSchema.Deflate
