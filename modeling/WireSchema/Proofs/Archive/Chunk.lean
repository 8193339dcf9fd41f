import WireSchema.Archive.Basic
import WireSchema.Proofs.Primitive

/-! Chunks and what is split into them. Bytes that are chunks one after the other, up to what ends
them, split into the contents of these chunks; all others are refused at the first chunk that is
announced and not there. -/

namespace WireSchema.Chunk

/-- Content that a chunk can hold: its size is not the one that ends the chunks, and fits four
bytes. -/
def Holds (content : List UInt8) : Prop := content ≠ [] ∧ content.length < 2 ^ 32

/-- What ends the chunks: too few bytes for a size, or a size of zero. -/
def Ends (tail : List UInt8) : Prop := tail.length < 4 ∨ [0, 0, 0, 0] <+: tail

/-- The bytes are chunks of these contents, and what ends them. -/
inductive Framed : List (List UInt8) → List UInt8 → Prop
  | mk {contents : List (List UInt8)} {tail : List UInt8} (hcontents : ∀ c ∈ contents, Holds c)
      (htail : Ends tail) :
      Framed contents (contents.flatMap frame ++ tail)

/-- Behind whole chunks a size is announced that the bytes after it fall short of. -/
inductive Overruns : Overrun → List UInt8 → Prop
  | mk {contents : List (List UInt8)} {size : Nat} {rest : List UInt8}
      (hcontents : ∀ c ∈ contents, Holds c) (hsize : size < 2 ^ 32) (hrest : rest.length < size) :
      Overruns ⟨contents.length, size, rest.length⟩
        (contents.flatMap frame ++ (Wire.littleEndian size ++ rest))

theorem length_frame (content : List UInt8) : (frame content).length = content.length + 4 := by
  rw [frame, List.length_append, Reader.length_littleEndian, Nat.add_comm]

theorem length_le_flatMap_frame (contents : List (List UInt8)) :
    contents.length ≤ (contents.flatMap frame).length := by
  induction contents with
  | nil => simp
  | cons content contents ih =>
    rw [List.flatMap_cons, List.length_append, length_frame, List.length_cons]
    omega

theorem Framed.cons {content bytes : List UInt8} {contents : List (List UInt8)}
    (hcontent : Holds content) (h : Framed contents bytes) :
    Framed (content :: contents) (frame content ++ bytes) := by
  obtain ⟨hcontents, htail⟩ := h
  rw [← List.append_assoc, ← List.flatMap_cons]
  exact .mk (List.forall_mem_cons.mpr ⟨hcontent, hcontents⟩) htail

theorem Overruns.cons {content bytes : List UInt8} {o : Overrun} (hcontent : Holds content)
    (h : Overruns o bytes) :
    Overruns ⟨o.index + 1, o.size, o.remaining⟩ (frame content ++ bytes) := by
  obtain ⟨hcontents, hsize, hrest⟩ := h
  rw [← List.append_assoc, ← List.flatMap_cons]
  exact .mk (List.forall_mem_cons.mpr ⟨hcontent, hcontents⟩) hsize hrest

/-! ### One step of splitting -/

/-- A size ends the chunks, or announces a chunk that is there or not. -/
theorem splitFrom_size {size : Nat} (hsize : size < 2 ^ 32) (n index : Nat) (rest : List UInt8) :
    splitFrom (n + 1) index (Wire.littleEndian size ++ rest) =
      if size = 0 then .ok []
      else if rest.length < size then .error ⟨index, size, rest.length⟩
      else (splitFrom n (index + 1) (rest.drop size)).map (rest.take size :: ·) := by
  have hlength : ¬ (Wire.littleEndian size ++ rest).length < 4 := by
    rw [List.length_append, Reader.length_littleEndian]
    omega
  rw [splitFrom, if_neg hlength, List.take_left' (Reader.length_littleEndian size),
    List.drop_left' (Reader.length_littleEndian size), Reader.ofLittleEndian_littleEndian hsize]

theorem splitFrom_ends {tail : List UInt8} (h : Ends tail) (n index : Nat) :
    splitFrom n index tail = .ok [] := by
  cases n with
  | zero => rfl
  | succ n =>
    rcases h with hshort | ⟨rest, rfl⟩
    · rw [splitFrom, if_pos hshort]
    · exact splitFrom_size (by decide) n index rest

theorem splitFrom_frame {content : List UInt8} (h : Holds content) (n index : Nat)
    (rest : List UInt8) : splitFrom (n + 1) index (frame content ++ rest) =
      (splitFrom n (index + 1) rest).map (content :: ·) := by
  obtain ⟨hne, hlt⟩ := h
  have hpos := List.length_pos_iff.mpr hne
  have hsize : ¬ (content ++ rest).length < content.length := by
    rw [List.length_append]
    omega
  rw [frame, List.append_assoc, splitFrom_size hlt, if_neg (by omega), if_neg hsize, List.drop_left,
    List.take_left]

/-- Splitting goes on behind chunks as it does without them, but for the count of chunks. -/
theorem splitFrom_flatMap_frame {contents : List (List UInt8)} (h : ∀ c ∈ contents, Holds c)
    (n index : Nat) (rest : List UInt8) :
    splitFrom (contents.length + n) index (contents.flatMap frame ++ rest) =
      (splitFrom n (index + contents.length) rest).map (contents ++ ·) := by
  induction contents generalizing index with
  | nil =>
    rw [List.length_nil, Nat.zero_add, List.flatMap_nil, List.nil_append, Nat.add_zero]
    cases splitFrom n index rest <;> rfl
  | cons content contents ih =>
    obtain ⟨hcontent, hcontents⟩ := List.forall_mem_cons.mp h
    rw [List.length_cons, Nat.add_right_comm, List.flatMap_cons, List.append_assoc,
      splitFrom_frame hcontent, ih hcontents, Nat.add_right_comm, Nat.add_assoc]
    cases splitFrom n (index + (contents.length + 1)) rest <;> rfl

/-! ### All of the bytes -/

/-- Splitting some bytes is splitting those behind the chunks that they begin with. -/
theorem split_flatMap_frame_append {contents : List (List UInt8)} (h : ∀ c ∈ contents, Holds c)
    (rest : List UInt8) :
    ∃ n, rest.length ≤ n ∧
      split (contents.flatMap frame ++ rest) =
        (splitFrom n contents.length rest).map (contents ++ ·) := by
  have hle := length_le_flatMap_frame contents
  refine ⟨(contents.flatMap frame ++ rest).length - contents.length, ?_, ?_⟩
  · rw [List.length_append]
    omega
  · have hsplit :=
      splitFrom_flatMap_frame h ((contents.flatMap frame ++ rest).length - contents.length) 0 rest
    rw [Nat.zero_add, Nat.add_sub_cancel' (by rw [List.length_append]; omega)] at hsplit
    exact hsplit

theorem Framed.split_eq {contents : List (List UInt8)} {bytes : List UInt8}
    (h : Framed contents bytes) :
    split bytes = .ok contents := by
  obtain ⟨hcontents, htail⟩ := h
  obtain ⟨n, -, hsplit⟩ := split_flatMap_frame_append hcontents _
  rw [hsplit, splitFrom_ends htail]
  exact congrArg _ (List.append_nil contents)

/-- Nothing behind the chunks ends them as well. -/
theorem split_flatMap_frame {contents : List (List UInt8)} (h : ∀ c ∈ contents, Holds c) :
    split (contents.flatMap frame) = .ok contents := by
  have hframed : Framed contents (contents.flatMap frame ++ []) := .mk h (.inl (by decide))
  rw [List.append_nil] at hframed
  exact hframed.split_eq

theorem Overruns.split_eq {o : Overrun} {bytes : List UInt8} (h : Overruns o bytes) :
    split bytes = .error o := by
  obtain @⟨contents, size, rest, hcontents, hsize, hrest⟩ := h
  obtain ⟨n, hn, hsplit⟩ := split_flatMap_frame_append hcontents (Wire.littleEndian size ++ rest)
  rw [List.length_append, Reader.length_littleEndian] at hn
  obtain ⟨n, rfl⟩ : ∃ m, n = m + 1 := ⟨n - 1, by omega⟩
  rw [hsplit, splitFrom_size hsize, if_neg (by omega), if_pos hrest]
  rfl

/-- Bytes end the chunks, announce one that is not there, or begin with one. -/
theorem ends_or_announces (bytes : List UInt8) : Ends bytes ∨
    (∃ size rest, size < 2 ^ 32 ∧ rest.length < size ∧ bytes = Wire.littleEndian size ++ rest) ∨
      ∃ content rest, Holds content ∧ bytes = frame content ++ rest := by
  by_cases hshort : bytes.length < 4
  · exact .inl (.inl hshort)
  have htake : (bytes.take 4).length = 4 := List.length_take_of_le (by omega)
  obtain ⟨size, hsize⟩ : ∃ size, Reader.ofLittleEndian (bytes.take 4) = size := ⟨_, rfl⟩
  have hlt : size < 2 ^ 32 := by
    have := Reader.ofLittleEndian_lt (bytes.take 4)
    rwa [htake, hsize] at this
  obtain ⟨rest, rfl⟩ : ∃ rest, bytes = Wire.littleEndian size ++ rest := by
    refine ⟨bytes.drop 4, ?_⟩
    rw [← hsize, Reader.littleEndian_ofLittleEndian htake, List.take_append_drop]
  by_cases hzero : size = 0
  · subst hzero
    exact .inl (.inr (List.prefix_append _ rest))
  by_cases hover : rest.length < size
  · exact .inr (.inl ⟨size, rest, hlt, hover, rfl⟩)
  have hlength : (rest.take size).length = size := List.length_take_of_le (by omega)
  refine .inr (.inr ⟨rest.take size, rest.drop size, ⟨?_, by rwa [hlength]⟩, ?_⟩)
  · rw [← List.length_pos_iff]
    omega
  · rw [frame, hlength, List.append_assoc, List.take_append_drop]

/-- There is no third way for bytes to be. By induction on how many there are: each chunk takes some
of them. -/
theorem framed_or_overruns (bytes : List UInt8) :
    (∃ contents, Framed contents bytes) ∨ ∃ o, Overruns o bytes := by
  induction hn : bytes.length using Nat.strong_induction_on generalizing bytes with
  | _ n ih =>
    rcases ends_or_announces bytes with
      htail | ⟨size, rest, hsize, hrest, rfl⟩ | ⟨content, rest, hcontent, rfl⟩
    · exact .inl ⟨[], .mk (by simp) htail⟩
    · exact .inr ⟨_, @Overruns.mk [] size rest (List.forall_mem_nil Holds) hsize hrest⟩
    · rw [List.length_append, length_frame] at hn
      rcases ih rest.length (by omega) rest rfl with ⟨contents, h⟩ | ⟨o, h⟩
      · exact .inl ⟨_, h.cons hcontent⟩
      · exact .inr ⟨_, h.cons hcontent⟩

/-- Bytes split into the contents of the chunks that they are made of, up to what ends these, and
they are so in one way only. All other bytes are refused where a chunk is not all there: the error
tells how many whole chunks came before, the size that was announced, and how many bytes remained,
which are fewer. -/
theorem split_inverts_frames (bytes : List UInt8) :
    (∀ contents, split bytes = .ok contents ↔ Framed contents bytes) ∧
    (∀ contents contents', Framed contents bytes → Framed contents' bytes → contents = contents') ∧
    ((∀ contents, ¬ Framed contents bytes) → ∃ o, split bytes = .error o) ∧
    (∀ o, split bytes = .error o ↔ Overruns o bytes) ∧
    ∀ o, (Archive.Error.overrun o).message =
      s!"Chunk {o.index} needs {o.size} byte(s) but only {o.remaining} remain" := by
  refine ⟨fun contents => ⟨fun h => ?_, Framed.split_eq⟩, fun contents contents' h h' => ?_,
    fun hnot => ?_, fun o => ⟨fun h => ?_, Overruns.split_eq⟩, fun _ => rfl⟩
  · rcases framed_or_overruns bytes with ⟨contents', h'⟩ | ⟨o, h'⟩
    · obtain rfl := Except.ok.inj (h'.split_eq.symm.trans h)
      exact h'
    · exact absurd (h'.split_eq.symm.trans h) nofun
  · exact Except.ok.inj (h.split_eq.symm.trans h'.split_eq)
  · obtain ⟨contents, h⟩ | ⟨o, h⟩ := framed_or_overruns bytes
    · exact absurd h (hnot contents)
    · exact ⟨o, h.split_eq⟩
  · rcases framed_or_overruns bytes with ⟨contents, h'⟩ | ⟨o', h'⟩
    · exact absurd (h'.split_eq.symm.trans h) nofun
    · obtain rfl := Except.error.inj (h'.split_eq.symm.trans h)
      exact h'

end WireSchema.Chunk
