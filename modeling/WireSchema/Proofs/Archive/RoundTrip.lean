import WireSchema.Archive.Basic
import WireSchema.Proofs.Archive.Chunk
import WireSchema.Proofs.Compression.Deflate
import WireSchema.Proofs.Compression.Zstandard
import WireSchema.Proofs.Except

/-! Archives read back. The header of an archive that is marked as encrypted is the other header and
one more byte, so a plain archive is taken for a marked one when its first chunk begins with that
byte, the lowest of the size of the compressed schema. All other archives are read as they were
written. -/

namespace WireSchema

/-- What is relied on: what was compressed comes back, and something is always written. -/
structure Compression.Lawful (z : Compression) : Prop where
  inverse : ∀ bytes, z.decompress? (z.compress bytes) = some bytes
  ne_nil : ∀ bytes, z.compress bytes ≠ []

theorem deflate_lawful : deflate.Lawful := ⟨Deflate.decompress?_compress, Deflate.compress_ne_nil⟩

theorem zstandard_lawful : zstandard.Lawful :=
  ⟨Zstandard.decompress?_compress, Zstandard.compress_ne_nil⟩

namespace Archive

/-- The byte by which the longer header is longer. -/
def mark : UInt8 := 101

theorem encryptedHeader_eq : encryptedHeader = plainHeader ++ [mark] := by decide

theorem header?_encrypted (body : List UInt8) :
    header? (encryptedHeader ++ body) = some (true, body) := by
  have hprefix : encryptedHeader.isPrefixOf (encryptedHeader ++ body) = true :=
    List.isPrefixOf_iff_prefix.mpr (List.prefix_append _ _)
  rw [header?, if_pos hprefix, List.drop_left]

/-- The shorter header is seen unless the byte that makes it the longer one follows. -/
theorem header?_plain {body : List UInt8} (hbody : body.head? ≠ some mark) :
    header? (plainHeader ++ body) = some (false, body) := by
  have hnot : ¬ encryptedHeader.isPrefixOf (plainHeader ++ body) = true := by
    rw [List.isPrefixOf_iff_prefix, encryptedHeader_eq, List.prefix_append_right_inj]
    rintro ⟨rest, rfl⟩
    exact hbody rfl
  have hprefix : plainHeader.isPrefixOf (plainHeader ++ body) = true :=
    List.isPrefixOf_iff_prefix.mpr (List.prefix_append _ _)
  rw [header?, if_neg hnot, if_pos hprefix, List.drop_left]

theorem header?_plain_mark {body : List UInt8} (hbody : body.head? = some mark) :
    header? (plainHeader ++ body) = some (true, body.tail) := by
  obtain ⟨rest, rfl⟩ := List.head?_eq_some_iff.mp hbody
  rw [← List.singleton_append, ← List.append_assoc, ← encryptedHeader_eq, header?_encrypted]
  rfl

variable {z w : Compression} {a : Archive} {bytes : List UInt8}

theorem header?_of_readWith (h : readWith z w bytes = .ok a) :
    ∃ body, header? bytes = some (a.encrypted, body) := by
  rw [readWith] at h
  cases hheader : header? bytes with
  | none => simp [hheader] at h
  | some p =>
    obtain ⟨encrypted, body⟩ := p
    simp only [hheader] at h
    split at h
    · simp at h
    · split at h
      · obtain rfl := Except.ok.inj h
        exact ⟨body, rfl⟩
      · simp at h
    · simp at h

/-- Behind a header that is recognized, two chunks with what was compressed are the archive. -/
theorem readWith_of_header? (hz : z.Lawful) (hw : w.Lawful)
    (hschema : (z.compress a.schema).length < UInt32.size)
    (hdata : (w.compress a.data).length < UInt32.size)
    (hheader : header? bytes = some (a.encrypted,
      Chunk.frame (z.compress a.schema) ++ Chunk.frame (w.compress a.data))) :
    readWith z w bytes = .ok a := by
  have hsplit : Chunk.split (Chunk.frame (z.compress a.schema) ++ Chunk.frame (w.compress a.data)) =
      .ok [z.compress a.schema, w.compress a.data] := by
    have hholds : ∀ c ∈ [z.compress a.schema, w.compress a.data], Chunk.Holds c := by
      simp only [List.forall_mem_cons, List.not_mem_nil, false_implies, implies_true, and_true]
      exact ⟨⟨hz.ne_nil _, hschema⟩, hw.ne_nil _, hdata⟩
    have hframes := Chunk.split_flatMap_frame hholds
    rwa [List.flatMap_cons, List.flatMap_cons, List.flatMap_nil, List.append_nil] at hframes
  simp only [readWith, hheader, hsplit, hz.inverse, hw.inverse]

theorem writeWith_eq_ok (h : writeWith z w a = .ok bytes) :
    (z.compress a.schema).length < UInt32.size ∧ (w.compress a.data).length < UInt32.size ∧
      bytes = (if a.encrypted = true then encryptedHeader else plainHeader) ++
        (Chunk.frame (z.compress a.schema) ++ Chunk.frame (w.compress a.data)) := by
  have hchunk : ∀ {content framed : List UInt8}, chunk content = .ok framed →
      content.length < UInt32.size ∧ Chunk.frame content = framed := by
    intro content framed hframed
    rw [chunk] at hframed
    split at hframed
    · rename_i hlt
      exact ⟨hlt, Except.ok.inj hframed⟩
    · simp at hframed
  obtain ⟨schema, hschema, h⟩ := Except.bind_eq_ok.mp h
  obtain ⟨data, hdata, h⟩ := Except.bind_eq_ok.mp h
  obtain ⟨hschemaLength, rfl⟩ := hchunk hschema
  obtain ⟨hdataLength, rfl⟩ := hchunk hdata
  obtain rfl := Except.pure_eq_ok.mp h
  exact ⟨hschemaLength, hdataLength, List.append_assoc _ _ _⟩

/-- An archive that was written is read as it was exactly if it is marked as encrypted, or the size
of its compressed schema does not end in the byte of the mark. -/
theorem readWith_writeWith_iff (hz : z.Lawful) (hw : w.Lawful) (h : writeWith z w a = .ok bytes) :
    readWith z w bytes = .ok a ↔
      a.encrypted = true ∨ (z.compress a.schema).length % 256 ≠ 101 := by
  obtain ⟨hschema, hdata, rfl⟩ := writeWith_eq_ok h
  have hhead : (Chunk.frame (z.compress a.schema) ++ Chunk.frame (w.compress a.data)).head? =
      some (UInt8.ofNat (z.compress a.schema).length) := rfl
  have hmark : UInt8.ofNat (z.compress a.schema).length = mark ↔
      (z.compress a.schema).length % 256 = 101 := by
    rw [← UInt8.toNat_inj, UInt8.toNat_ofNat']
    rfl
  cases hencrypted : a.encrypted with
  | true =>
    refine iff_of_true (readWith_of_header? hz hw hschema hdata ?_) (.inl rfl)
    rw [if_pos rfl, header?_encrypted, hencrypted]
  | false =>
    rw [if_neg (by decide)]
    by_cases hsize : (z.compress a.schema).length % 256 = 101
    · refine iff_of_false (fun hread => ?_) (by simp [hsize])
      obtain ⟨body, hheader⟩ := header?_of_readWith hread
      rw [header?_plain_mark (hhead.trans (congrArg some (hmark.mpr hsize))), hencrypted] at hheader
      simp at hheader
    · refine iff_of_true (readWith_of_header? hz hw hschema hdata ?_) (.inr hsize)
      have hplain : (Chunk.frame (z.compress a.schema) ++
          Chunk.frame (w.compress a.data)).head? ≠ some mark := by
        rw [hhead]
        exact fun hh => hsize (hmark.mp (Option.some.inj hh))
      rw [header?_plain hplain, hencrypted]

/-- 96 bytes of which none comes twice, and which are compressed to 101. -/
def incompressible : List UInt8 :=
  [0, 98, 197, 40, 138, 237, 80, 178, 21, 120, 218, 61, 160, 2, 101, 200, 42, 141, 240, 82, 181,
   24, 122, 221, 64, 162, 5, 104, 202, 45, 144, 242, 85, 184, 26, 125, 224, 66, 165, 8, 106,
   205, 48, 146, 245, 88, 186, 29, 128, 226, 69, 168, 10, 109, 208, 50, 149, 248, 90, 189, 32,
   130, 229, 72, 170, 13, 112, 210, 53, 152, 250, 93, 192, 34, 133, 232, 74, 173, 16, 114, 213,
   56, 154, 253, 96, 194, 37, 136, 234, 77, 176, 18, 117, 216, 58, 157]

theorem readWith_writeWith_iff_incompressible : ∃ bytes,
    writeWith deflate zstandard ⟨true, incompressible, []⟩ = .ok bytes ∧
      readWith deflate zstandard bytes = .ok ⟨true, incompressible, []⟩ :=
  ⟨_, rfl, (readWith_writeWith_iff deflate_lawful zstandard_lawful rfl).mpr (.inl rfl)⟩

/-- The same contents in a plain archive are taken for those of a marked one, and the rest of the
size with the first byte of the schema for a size that is not there. -/
theorem read_write_incompressible :
    let a : Archive := ⟨false, incompressible, []⟩
    let bytes := plainHeader ++ Chunk.frame (Deflate.compress a.schema) ++
      Chunk.frame (Zstandard.compress a.data)
    write a = .ok bytes ∧ read bytes = .error (.overrun ⟨0, 16777216, 113⟩) := by
  decide +kernel

end Archive

end WireSchema
