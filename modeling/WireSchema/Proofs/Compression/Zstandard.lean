import WireSchema.Compression.Zstandard
import WireSchema.Proofs.Compression.Takes

/-! Zstandard gives back what it compressed: one frame without a length, in which every block is
stored and no longer than the window. -/

namespace WireSchema.Zstandard

open Decompression (run_bind)

abbrev Takes {α : Type} (m : Bytes α) (bytes : List UInt8) (a : α) : Prop :=
  Decompression.Takes id m bytes a

/-! ### Numbers -/

theorem takes_take (bytes : List UInt8) : Takes (take bytes.length) bytes bytes := by
  intro rest
  have hle : bytes.length ≤ (bytes ++ rest).length := by simp
  have hget : (get : Bytes (List UInt8)).run (bytes ++ rest) =
      some (bytes ++ rest, bytes ++ rest) :=
    rfl
  show (take bytes.length).run (bytes ++ rest) = some (bytes, rest)
  rw [take, run_bind hget, if_pos hle, List.take_left, List.drop_left]
  rfl

theorem length_bytesOf (k n : Nat) : (bytesOf k n).length = k := by
  induction k generalizing n with
  | zero => rfl
  | succ k ih => rw [bytesOf, List.length_cons, ih]

theorem takes_number {k n : Nat} (hn : n < 256 ^ k) : Takes (number k) (bytesOf k n) n := by
  have hvalue : (bytesOf k n).foldr (fun b m => b.toNat + 256 * m) 0 = n := by
    induction k generalizing n with
    | zero =>
      rw [Nat.pow_zero] at hn
      rw [bytesOf, List.foldr_nil]
      omega
    | succ k ih =>
      rw [Nat.pow_succ] at hn
      rw [bytesOf, List.foldr_cons, ih (by omega), UInt8.toNat_ofNat']
      omega
  have htake := takes_take (bytesOf k n)
  rw [length_bytesOf] at htake
  apply htake.map
  rw [hvalue]
  exact Decompression.Takes.pure n

/-! ### Blocks -/

theorem takes_block {bytes : List UInt8} (hlength : bytes.length ≤ maxBlock) (last : Bool) :
    Takes block (storedBlock last bytes) (last, .stored bytes) := by
  have hmax : maxBlock = 0x20000 := rfl
  have hbit : (if last then 1 else 0) ≤ 1 := by
    cases last <;> simp
  have hlast : decide ((if last then 1 else 0) = 1) = last := by
    cases last <;> rfl
  apply (takes_number (by omega)).bind
  generalize (if last then 1 else 0) = b at hbit hlast ⊢
  have hkind : (bytes.length * 8 + b) / 2 % 4 = 0 := by omega
  have hsize : (bytes.length * 8 + b) / 8 = bytes.length := by omega
  have hend : (bytes.length * 8 + b) % 2 = b := by omega
  simp only [hkind, hsize, hend, hlast]
  exact (takes_take bytes).map (Decompression.Takes.pure _)

/-- Stored blocks are read one after the other up to the last; none is longer than the window. -/
theorem takes_blocks {k fuel : Nat} {bytes : List UInt8}
    (hlength : bytes.length < 0x20000 * (k + 1)) (hfuel : k < fuel) : ∃ bs : List Block,
      Takes (blocks fuel) (storedBlocks k bytes) bs ∧ bs.flatMap Block.content = bytes ∧
        ∀ b ∈ bs, b.length ≤ maxBlock := by
  have hmax : maxBlock = 0x20000 := rfl
  obtain ⟨fuel, rfl⟩ : ∃ n, fuel = n + 1 := ⟨fuel - 1, by omega⟩
  have hone : ∀ {bytes : List UInt8} {fuel : Nat}, bytes.length ≤ maxBlock → ∃ bs : List Block,
      Takes (blocks (fuel + 1)) (storedBlock true bytes) bs ∧ bs.flatMap Block.content = bytes ∧
        ∀ b ∈ bs, b.length ≤ maxBlock := by
    intro bytes fuel hshort
    refine ⟨[.stored bytes], (takes_block hshort true).map (Decompression.Takes.pure _), ?_, ?_⟩
    · simp [Block.content]
    · simpa [Block.length] using hshort
  induction k generalizing bytes fuel with
  | zero => exact hone (by omega)
  | succ k ih =>
    rw [storedBlocks]
    split
    · rename_i hshort
      exact hone hshort
    · rename_i hlong
      have htake : (bytes.take maxBlock).length ≤ maxBlock := by
        rw [List.length_take]
        omega
      have hdrop : (bytes.drop maxBlock).length < 0x20000 * (k + 1) := by
        rw [List.length_drop]
        omega
      obtain ⟨fuel, rfl⟩ : ∃ n, fuel = n + 1 := ⟨fuel - 1, by omega⟩
      obtain ⟨bs, hbs, hcontent, hall⟩ := ih hdrop fuel (by omega)
      refine ⟨.stored (bytes.take maxBlock) :: bs, ?_, ?_, ?_⟩
      · exact (takes_block htake false).bind (hbs.map (Decompression.Takes.pure _))
      · rw [List.flatMap_cons, hcontent]
        exact List.take_append_drop maxBlock bytes
      · exact List.forall_mem_cons.mpr ⟨htake, hall⟩

/-! ### Frames -/

theorem takes_header : Takes header [0, 56] ⟨none, maxBlock⟩ := by
  have hfirst : Takes (number 1) [0] 0 := takes_number (k := 1) (n := 0) (by decide)
  have hwindow : Takes (some <$> number 1) [56] (some 56) := by
    have hsecond : Takes (number 1) [56] 56 := takes_number (k := 1) (n := 56) (by decide)
    rw [map_eq_pure_bind]
    exact hsecond.map (Decompression.Takes.pure _)
  have hnothing : Takes (number 0) [] 0 := takes_number (k := 0) (n := 0) (by decide)
  exact hfirst.bind (hwindow.bind (hnothing.map (Decompression.Takes.pure _)))

theorem length_lt_storedBlocks (k : Nat) (bytes : List UInt8) :
    bytes.length < (storedBlocks k bytes).length := by
  induction k generalizing bytes with
  | zero =>
    rw [storedBlocks, storedBlock, List.length_append, length_bytesOf]
    omega
  | succ k ih =>
    rw [storedBlocks]
    split
    · rw [storedBlock, List.length_append, length_bytesOf]
      omega
    · have hrest := ih (bytes.drop maxBlock)
      rw [List.length_drop] at hrest
      rw [List.length_append, storedBlock, List.length_append, length_bytesOf, List.length_take]
      omega

/-- The frame that is written passes through buffers, since its length is not told. -/
theorem takes_frame (bytes : List UInt8) (b : Buffers) :
    Takes (frame b) (compress bytes) (b.adapt ⟨none, maxBlock⟩, bytes) := by
  have hmagic : Takes (number 4) (bytesOf 4 magic) magic := takes_number (by decide)
  rw [compress, List.append_assoc]
  apply hmagic.bind
  rw [if_neg (by decide), if_pos rfl]
  apply takes_header.bind
  intro rest
  have hfuel : bytes.length / 0x20000 <
      (storedBlocks (bytes.length / maxBlock) bytes ++ rest).length := by
    have hlength := length_lt_storedBlocks (bytes.length / maxBlock) bytes
    rw [List.length_append]
    omega
  obtain ⟨bs, hbs, hcontent, hall⟩ := takes_blocks (Nat.lt_mul_div_succ _ (by decide)) hfuel
  have hget : ∀ s, (get : Bytes (List UInt8)).run s = some (s, s) := fun _ => rfl
  have hpasses : passes ⟨none, maxBlock⟩ bs (b.adapt ⟨none, maxBlock⟩) = true := by
    have hblocks : bs.all (·.length ≤ blockLimit maxBlock) = true :=
      List.all_eq_true.mpr fun b hb => decide_eq_true (hall b hb)
    rw [passes, hblocks]
    rfl
  show StateT.run _ (storedBlocks (bytes.length / maxBlock) bytes ++ rest) = _
  have hread : (blocks _).run (storedBlocks (bytes.length / maxBlock) bytes ++ rest) =
      some (bs, rest) := hbs rest
  rw [run_bind (hget _), run_bind hread, hcontent]
  show (if passes _ bs (b.adapt ⟨none, maxBlock⟩) = true then _ else _ : Bytes _).run rest = _
  rw [hpasses]
  rfl

theorem compress_ne_nil (bytes : List UInt8) : compress bytes ≠ [] := by
  simp [compress, bytesOf]

theorem run_frames_nil (n : Nat) (b : Buffers) : (frames n b).run [] = some ([], []) := by
  cases n <;> rfl

theorem decompress?_compress (bytes : List UInt8) : decompress? (compress bytes) = some bytes := by
  have hget : ∀ s, (get : Bytes (List UInt8)).run s = some (s, s) := fun _ => rfl
  have hnonempty : (compress bytes).isEmpty = false :=
    List.isEmpty_eq_false_iff.mpr (compress_ne_nil bytes)
  have hframe : (frame .none).run (compress bytes) =
      some ((Buffers.none.adapt ⟨none, maxBlock⟩, bytes), []) := by
    have hrun := takes_frame bytes .none []
    rwa [List.append_nil] at hrun
  obtain ⟨n, hn⟩ : ∃ n, (compress bytes).length = n + 1 :=
    Nat.exists_eq_succ_of_ne_zero (mt List.length_eq_zero_iff.mp (compress_ne_nil bytes))
  have hframes : (frames (n + 1) .none).run (compress bytes) = some (bytes, []) := by
    rw [frames, run_bind (hget _), hnonempty, if_neg (by decide), run_bind hframe]
    show (frames n _ >>= fun rest => pure (bytes ++ rest)).run [] = _
    rw [run_bind (run_frames_nil n _), List.append_nil]
    rfl
  show Prod.fst <$> (frames (compress bytes).length .none).run (compress bytes) = some bytes
  rw [hn, hframes]
  rfl

end WireSchema.Zstandard
