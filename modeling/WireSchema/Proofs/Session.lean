import WireSchema.Bytes.Session
import WireSchema.Proofs.Advancing

/-! Sessions of primitives. What was written one after the other is read back one after the other,
each primitive from the bytes that it was written as, and in the end nothing is left. -/

namespace WireSchema

open Reader (Takes)

namespace Primitive

variable {p : Primitive} {ps : List Primitive}

/-- A primitive that is read back: a byte array is no longer than its count can say, and a text
holds no zero. -/
def Fits : Primitive → Prop
  | .byteArray bs => bs.length < 2 ^ 32
  | .string s => Char.ofNat 0 ∉ s.toList
  | .bool _ | .byte _ | .bytes _ | .int _ | .uint _ | .float _ => True

instance : DecidablePred Fits
  | .byteArray bs => inferInstanceAs (Decidable (bs.length < 2 ^ 32))
  | .string s => inferInstanceAs (Decidable (Char.ofNat 0 ∉ s.toList))
  | .bool _ | .byte _ | .bytes _ | .int _ | .uint _ | .float _ => inferInstanceAs (Decidable True)

/-- What a primitive is read back as: a float whose exponent field is zero as zero, everything else
as it is. -/
def restored : Primitive → Primitive
  | .float x => .float x.flush
  | p => p

/-- The outcomes of reading from a cursor give the primitives back: each is restored and moves the
cursor on by the bytes that it was written as, and behind the last one no bytes remain. -/
inductive GivenBack : List Primitive → Cursor → List (Outcome BufferError Primitive) → Prop
  | done {c : Cursor} (h : c.remaining = 0) : GivenBack [] c []
  | step {p : Primitive} {ps : List Primitive} {c : Cursor} {o : Outcome BufferError Primitive}
      {os : List (Outcome BufferError Primitive)} (hresult : o.result = .ok p.restored)
      (hcursor : o.cursor = c.advance p.encode.length) (hrest : GivenBack ps o.cursor os) :
      GivenBack (p :: ps) c (o :: os)

/-! ### One primitive -/

theorem takes_byteArray {bs : List UInt8} (h : bs.length < 2 ^ 32) :
    Takes Reader.byteArray (Wire.byteArray bs) bs := by
  have hn : (UInt32.ofNat bs.length).toNat = bs.length := by
    rw [UInt32.toNat_ofNat']
    exact Nat.mod_eq_of_lt h
  refine (Reader.takes_uint _).bind ?_
  rw [hn]
  exact Takes.bytes bs

/-- A primitive is taken from the bytes that it was written as, whatever is before and behind
them. -/
theorem Fits.takes (h : p.Fits) : Takes (Reader.primitive p.kind) p.encode p.restored := by
  cases p with
  | bool b => exact (Reader.takes_bool b).map (Takes.pure _)
  | byte b => exact (Takes.byte b).map (Takes.pure _)
  | bytes bs => exact (Takes.bytes bs).map (Takes.pure _)
  | byteArray bs => exact (takes_byteArray h).map (Takes.pure _)
  | int n => exact (Reader.takes_int n).map (Takes.pure _)
  | uint n => exact (Reader.takes_uint n).map (Takes.pure _)
  | float x => exact (Reader.takes_float x).map (Takes.pure _)
  | string s => exact (Reader.takes_string h).map (Takes.pure _)

/-! ### One after the other -/

theorem encodeAll_cons (p : Primitive) (ps : List Primitive) :
    encodeAll (p :: ps) = p.encode ++ encodeAll ps :=
  List.flatMap_cons

/-- Reading may begin behind other bytes: each read leaves the cursor before the bytes of the
primitives that are left. -/
theorem givenBack_from (h : ∀ p ∈ ps, p.Fits) (offset : Nat) :
    GivenBack ps ⟨offset, encodeAll ps⟩
      (Reader.primitives (ps.map kind) ⟨offset, encodeAll ps⟩) := by
  induction ps generalizing offset with
  | nil => exact .done rfl
  | cons p ps ih =>
    obtain ⟨hp, hps⟩ := List.forall_mem_cons.mp h
    obtain ⟨hresult, hcursor⟩ := hp.takes offset (encodeAll ps)
    rw [← encodeAll_cons] at hresult hcursor
    have hstop : Cursor.advance ⟨offset, encodeAll (p :: ps)⟩ p.encode.length =
        ⟨offset + p.encode.length, encodeAll ps⟩ := by
      rw [Cursor.advance, encodeAll_cons, List.drop_left]
    refine .step hresult (hcursor.trans hstop.symm) ?_
    rw [hcursor]
    exact ih hps (offset + p.encode.length)

/-- Whatever is written one after the other to one sequence of bytes, byte arrays that are too long
and texts with a zero apart, is read back by the reads of the same kinds: every read succeeds with
what was written, floats with a zero exponent field as zero, and moves on by just the bytes of it,
and the last leaves none. -/
theorem givenBack_primitives (h : ∀ p ∈ ps, p.Fits) :
    GivenBack ps (.start (encodeAll ps))
      (Reader.primitives (ps.map kind) (.start (encodeAll ps))) :=
  givenBack_from h 0

/-- Numbers at the ends of their ranges, nothing at all, a zero below zero, and a number that is
none, with a payload. -/
theorem givenBack_primitives_extremes :
    let ps : List Primitive :=
      [.int (-0x80000000), .bytes [], .float ⟨0x80000000⟩, .uint 0xFFFFFFFF, .byteArray [0, 7],
        .string "é", .float ⟨0xFFA00001⟩, .bool true, .int 0x7FFFFFFF, .byte 0]
    (∀ p ∈ ps, p.Fits) ∧
      encodeAll ps =
        [255, 255, 255, 255, 15, 0, 255, 255, 255, 255, 15, 2, 0, 7, 195, 169, 0, 255, 3, 0, 64, 1,
          254, 255, 255, 255, 15, 0] ∧
      GivenBack ps (.start (encodeAll ps))
        (Reader.primitives (ps.map kind) (.start (encodeAll ps))) := by
  intro ps
  have h : ∀ p ∈ ps, p.Fits := by decide
  exact ⟨h, by decide, givenBack_primitives h⟩

end Primitive

end WireSchema
