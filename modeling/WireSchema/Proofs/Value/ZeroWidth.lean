import WireSchema.Proofs.Advancing
import WireSchema.Proofs.Value.Delimiting
import WireSchema.Proofs.Value.RoundTrip

/-! How many bytes values take. Which types take none is told exactly, in any catalog at all: their
values are written as no bytes and read from none, and all other values are written as one byte at
least and read from as many. So an array whose items take bytes has no more of them than bytes are
left, and to refuse a larger count loses nothing. -/

namespace WireSchema

namespace Reader

variable {ε α : Type} {m : Reader ε α}

/-- Where it answers, `m` has left the cursor where it was. -/
def Stays (m : Reader ε α) : Prop := ∀ ⦃c a c'⦄, Reads m c a c' → c' = c

theorem Stays.compositional : Compositional (ε := ε) Stays where
  pure _ _ _ _ h := (reads_pure.mp h).2.symm
  note _ _ _ _ h := (reads_note.mp h).symm
  cursor _ _ _ h := (reads_cursor.mp h).2.symm
  bind h hf _ _ _ hb := by
    obtain ⟨a, c', ha, hb⟩ := reads_bind.mp hb
    exact (hf a hb).trans (h ha)

/-- What a reader answers from bytes of its own has moved the cursor behind them. -/
theorem Delimited.exists_advance {E : Nat → ε → Prop} {least : Nat} {c c' : Cursor} {a : α}
    (h : Delimited E least m) (ha : Reads m c a c') :
    ∃ n, least ≤ n ∧ n ≤ c.remaining ∧ c' = c.advance n := by
  obtain ⟨bs, hleast, hrest, hoffset, -⟩ := h ha
  refine ⟨bs.length, hleast, by simp [Cursor.remaining, hrest], ?_⟩
  rw [Cursor.advance, hrest, List.drop_left, ← hoffset]

end Reader

namespace Catalog

open Reader (Reads Fails Stays Delimited)

variable {c : Catalog} {type : TypeRef} {levels : Nat} {cursor cursor' : Cursor}

/-! ### Bytes of single values -/

theorem stays_readStruct {inner : Shape → Reader DecodeError Value} {d : Definition}
    (h : ∀ f ∈ d.fields, Stays (inner f.shape)) : Stays (readStruct inner d) := by
  have hstays := Stays.compositional (ε := DecodeError)
  refine hstays.bind (hstays.foldl (fun f hf members => ?_) []) fun members => hstays.pure _
  exact hstays.bind (h f hf) fun v => hstays.pure _

/-- By induction on the levels, since the fields of such a struct are of such types. -/
theorem stays_readWithin (hz : c.isZeroWidth type = true) :
    Stays (c.readWithin levels (.one type)) := by
  induction levels generalizing type with
  | zero =>
    obtain ⟨index, d, rfl, hd, hk, -⟩ := isZeroWidth_iff.mp hz
    exact fun cursor v cursor' h =>
      absurd (fails_readWithin_zero hd (by simp [hk]) cursor) h.not_fails
  | succ levels ih =>
    obtain ⟨index, d, rfl, hd, hk, hfields⟩ := isZeroWidth_iff.mp hz
    rw [readWithin_succ_definition hd, hk]
    refine stays_readStruct fun f hf => ?_
    obtain ⟨harray, hz⟩ := hfields f hf
    rw [Field.shape, harray]
    exact ih hz

theorem leastWidth_of_not (hz : c.isZeroWidth type = false) : c.leastWidth (.one type) = 1 := by
  simp [leastWidth, hz]

/-- Values are written as no bytes exactly if their type is said to take none. -/
theorem encodeAs_eq_nil_iff {v : Value} {bytes : List UInt8}
    (h : (c.encodeAs type v).result = .ok bytes) : bytes = [] ↔ c.isZeroWidth type = true := by
  obtain ⟨hconforms, rfl⟩ := encodeAs_eq_ok_iff.mp h
  rw [written_eq_nil_iff hconforms]
  constructor
  · rintro ⟨_, ⟨⟩, hz⟩
    exact hz
  · exact fun hz => ⟨type, rfl, hz⟩

/-! ### The count of an array -/

/-- An array read item by item, with nothing that its count is held against. -/
def readUnguarded (inner : Shape → Reader DecodeError Value) (type : TypeRef) :
    Reader DecodeError Value := do
  let n ← Reader.uint
  return .array (← (inner (.one type)).times n.toNat)

theorem readWithin_array (levels : Nat) (type : TypeRef) :
    c.readWithin (levels + 1) (.many type) = (do
      let n ← (monadLift Reader.uint : Reader DecodeError UInt32)
      c.checkCount type n.toNat
      return .array (← (c.readWithin levels (.one type)).times n.toNat)) := by
  simp only [readWithin, readShape, readCount_eq, bind_assoc, pure_bind]

section Guard

variable (hz : c.isZeroWidth type = false)
include hz

/-- There are no more items than bytes. -/
theorem le_remaining_of_reads_times {n : Nat} {items : List Value}
    (h : Reads ((c.readWithin levels (.one type)).times n) cursor items cursor') :
    n ≤ cursor.remaining := by
  have hitems := (delimited_readWithin (c := c) levels (.one type)).times n
  rw [leastWidth_of_not hz, Nat.mul_one] at hitems
  exact (Nat.le_add_left ..).trans (hitems.remaining_le h)

/-- With the guard and without it, the same arrays are read. -/
theorem reads_array_iff {v : Value} :
    Reads (c.readWithin (levels + 1) (.many type)) cursor v cursor' ↔
    Reads (readUnguarded (c.readWithin levels) type) cursor v cursor' := by
  rw [readWithin_array, readUnguarded, Reader.reads_bind, Reader.reads_bind]
  refine exists₂_congr fun n here => and_congr_right fun _ => ?_
  rw [Reader.reads_bind]
  constructor
  · rintro ⟨_, _, hcheck, h⟩
    obtain ⟨-, rfl⟩ := reads_checkCount.mp hcheck
    exact h
  · intro h
    refine ⟨(), here, reads_checkCount.mpr ⟨?_, rfl⟩, h⟩
    obtain ⟨items, _, hitems, -⟩ := Reader.reads_bind.mp h
    simpa [hz] using le_remaining_of_reads_times hz hitems

/-- A count larger than the bytes left is refused; without the guard, it is the items that are not
all there. -/
theorem fails_array {n : UInt32} {here : Cursor}
    (hn : Reads (monadLift Reader.uint : Reader DecodeError UInt32) cursor n here)
    (hlarge : here.remaining < n.toNat) :
    Fails (c.readWithin (levels + 1) (.many type)) cursor
        (.buffer (.underflow here.offset n.toNat)) ∧
      ∃ e, Fails (readUnguarded (c.readWithin levels) type) cursor e := by
  constructor
  · rw [readWithin_array]
    refine Reader.fails_bind.mpr (.inr ⟨n, here, hn, Reader.fails_bind.mpr (.inl ?_)⟩)
    rw [Reader.fails_congr (checkCount_apply type n.toNat here), hz, if_neg Bool.false_ne_true,
      if_pos hlarge]
    exact Reader.fails_fail.mpr rfl
  · cases hitems : ((c.readWithin levels (.one type)).times n.toNat here).result with
    | ok items =>
      exact absurd (le_remaining_of_reads_times hz ⟨hitems, rfl⟩) (Nat.not_le.mpr hlarge)
    | error e =>
      exact ⟨e, Reader.fails_bind.mpr (.inr ⟨n, here, hn, Reader.fails_bind.mpr (.inl hitems)⟩)⟩

end Guard

/-! ### All of it -/

/-- Which types take no bytes is told exactly. Values of those that do are written as no bytes and
read from none; of the others, as one byte at least and from as many. Of these others, an array is
refused for its count only where it could not be read without looking at the count, and otherwise it
is read as if nobody had looked. -/
theorem isZeroWidth_exact (c : Catalog) (type : TypeRef) :
    (c.isZeroWidth type = true →
      (∀ v bytes, (c.encodeAs type v).result = .ok bytes → bytes.length = 0) ∧
      ∀ cursor v cursor', Reads (c.readValue type) cursor v cursor' → cursor' = cursor) ∧
    (c.isZeroWidth type = false →
      (∀ v bytes, (c.encodeAs type v).result = .ok bytes → 1 ≤ bytes.length) ∧
      (∀ cursor v cursor', Reads (c.readValue type) cursor v cursor' →
        ∃ n, 1 ≤ n ∧ n ≤ cursor.remaining ∧ cursor' = cursor.advance n) ∧
      ∀ f : Field, f.type = type → f.isArray = true → ∀ cursor,
        (∀ n here, Reads (monadLift Reader.uint : Reader DecodeError UInt32) cursor n here →
          here.remaining < n.toNat →
            Fails (c.readField f) cursor (.buffer (.underflow here.offset n.toNat)) ∧
              ∃ e, Fails (readUnguarded (c.readWithin (maxDepth - 1)) type) cursor e) ∧
        ∀ v cursor', Reads (c.readField f) cursor v cursor' ↔
          Reads (readUnguarded (c.readWithin (maxDepth - 1)) type) cursor v cursor') := by
  refine ⟨fun hz => ⟨fun v bytes h => ?_, fun cursor v cursor' h => stays_readWithin hz h⟩,
    fun hz => ⟨fun v bytes h => ?_, fun cursor v cursor' h => ?_, ?guard⟩⟩
  · rw [(encodeAs_eq_nil_iff h).mpr hz, List.length_nil]
  · rw [Nat.one_le_iff_ne_zero, ne_eq, List.length_eq_zero_iff, encodeAs_eq_nil_iff h, hz]
    exact Bool.false_ne_true
  · have hread := delimited_readWithin (c := c) maxDepth (.one type)
    rw [leastWidth_of_not hz] at hread
    exact hread.exists_advance h
  case guard =>
    rintro f rfl harray cursor
    have hfield : c.readField f = c.readWithin (maxDepth - 1 + 1) (.many f.type) := by
      rw [readField, Field.shape, harray]
      rfl
    rw [hfield]
    exact ⟨fun n here => fails_array hz, fun v cursor' => reads_array_iff hz⟩

/-- A struct with no fields, one around it, one within itself, and one around what is nowhere. -/
example :
    let c : Catalog :=
      ⟨[⟨"Empty", .struct, []⟩, ⟨"Around", .struct, [⟨"a", .definition 0, false, false, 1⟩]⟩,
        ⟨"Knot", .struct, [⟨"a", .definition 2, false, false, 1⟩]⟩,
        ⟨"Lost", .struct, [⟨"a", .definition 9, false, false, 1⟩]⟩]⟩
    [0, 1, 2, 3].map (fun index => c.isZeroWidth (.definition index)) =
      [true, true, false, false] := rfl

end Catalog

end WireSchema
