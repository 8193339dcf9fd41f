import WireSchema.Bytes.Session
import WireSchema.Proofs.Advancing
import WireSchema.Proofs.Delimiting

/-! Reading on after failures. A primitive that cannot be read is reported where it leaves the
cursor, and what was read before the failure stays read. So however the reads of a session end, each
of them starts and stops at a place among the bytes, none goes back, and what a read answers is told
by the bytes that it passes and by no others. -/

namespace WireSchema

/-- `c` is a place in `data`: the bytes before it and those left are all there are, and the latter
are those from its offset on. -/
structure Cursor.Within (data : List UInt8) (c : Cursor) : Prop where
  offset_add_remaining : c.offset + c.remaining = data.length
  rest_eq : c.rest = data.drop c.offset

namespace Cursor.Within

variable {data : List UInt8} {c : Cursor}

theorem start (data : List UInt8) : (Cursor.start data).Within data := ⟨Nat.zero_add _, rfl⟩

theorem advance (h : c.Within data) {n : Nat} (hn : n ≤ c.remaining) :
    (c.advance n).Within data where
  offset_add_remaining := by
    rw [remaining_advance, ← h.offset_add_remaining]
    show c.offset + n + (c.remaining - n) = _
    omega
  rest_eq := by
    rw [Cursor.advance, h.rest_eq, List.drop_drop]

end Cursor.Within

/-- The error tells of the place `c`: bytes are needed there, more than are left, or the byte before
it is no truth value. -/
def BufferError.Locates (c : Cursor) : BufferError → Prop
  | underflow offset needed => offset = c.offset ∧ c.remaining < needed
  | invalidBool offset _ => offset + 1 = c.offset

namespace Reader

variable {ε α β : Type} {m : Reader ε α} {f : α → Reader ε β} {c c' : Cursor} {a : α} {e : ε}

/-- What passes to sequences holds of all primitives, if it holds of the four that are not put
together from others. -/
theorem Compositional.primitive {P : ∀ {α : Type}, Reader BufferError α → Prop}
    (hP : Compositional P) (hbool : P bool) (hbyte : P byte) (hbytes : ∀ n, P (bytes n))
    (hstring : P string) (k : Primitive.Kind) : P (primitive k) := by
  have hgroups : ∀ n, P (groups n) := by
    intro n
    induction n with
    | zero => exact hP.pure 0
    | succ n ih =>
      refine hP.bind hbyte fun b => ?_
      split
      · exact hP.pure _
      · exact hP.map ih _
  have huint : P uint := hP.map (hgroups 5) _
  cases k with
  | bool => exact hP.map hbool _
  | byte => exact hP.map hbyte _
  | bytes n => exact hP.map (hbytes n) _
  | byteArray => exact hP.map (hP.bind huint fun n => hbytes n.toNat) _
  | int => exact hP.map (hP.map huint _) _
  | uint => exact hP.map huint _
  | float =>
    refine hP.map (hP.bind hbyte fun first => ?_) _
    split
    · exact hP.pure _
    · exact hP.map (hbytes 3) _
  | string => exact hP.map hstring _

/-! ### Reading all or nothing -/

/-- If `m` fails, more bytes are needed than are left, and none has been read. -/
def RunsOut (m : Reader BufferError α) : Prop :=
  ∀ ⦃c e⦄, Fails m c e → ∃ n, c.remaining < n ∧ m c = underflow n c

theorem runsOut_byte : RunsOut byte := by
  intro c e h
  unfold Fails at h
  unfold byte at h ⊢
  split at h
  · rename_i hrest
    exact ⟨1, by simp [Cursor.remaining, hrest], rfl⟩
  · cases h

theorem runsOut_bytes (n : Nat) : RunsOut (bytes n) := by
  intro c e h
  unfold Fails bytes at h
  split at h
  · cases h
  · rename_i hn
    exact ⟨n, Nat.lt_of_not_le hn, if_neg hn⟩

theorem runsOut_string : RunsOut string := by
  intro c e h
  unfold Fails string at h
  dsimp only at h
  split at h
  · cases h
  · rename_i hzero
    exact ⟨c.remaining + 1, Nat.lt_succ_self _, if_neg hzero⟩

/-- If `m` fails, the cursor is left where it was. -/
def Whole (m : Reader ε α) : Prop := ∀ ⦃c e⦄, Fails m c e → (m c).cursor = c

theorem RunsOut.whole {m : Reader BufferError α} (h : RunsOut m) : Whole m := by
  intro c e hfails
  obtain ⟨n, -, hm⟩ := h hfails
  rw [hm]
  rfl

theorem Whole.map (h : Whole m) (g : α → β) : Whole (do return g (← m)) := by
  intro c e hfails
  rcases fails_bind.mp hfails with hm | ⟨a, c', -, ha⟩
  · rw [cursor_bind_of_fails hm]
    exact h hm
  · exact absurd ha not_fails_pure

/-! ### Failures told where they are met -/

/-- Whatever `m` fails with tells of the place where `m` leaves the cursor. -/
def Locates (m : Reader BufferError α) : Prop := ∀ ⦃c e⦄, Fails m c e → e.Locates (m c).cursor

theorem RunsOut.locates {m : Reader BufferError α} (h : RunsOut m) : Locates m := by
  intro c e hfails
  obtain ⟨n, hn, hm⟩ := h hfails
  rw [Fails, hm] at hfails
  obtain rfl := Except.error.inj hfails
  rw [hm]
  exact ⟨rfl, hn⟩

namespace Locates

variable {m : Reader BufferError α} {f : α → Reader BufferError β}

theorem bind (h : Locates m) (hf : ∀ a, Locates (f a)) : Locates (m >>= f) := by
  intro c e hfails
  rcases fails_bind.mp hfails with hm | ⟨a, c', ha, hfa⟩
  · rw [cursor_bind_of_fails hm]
    exact h hm
  · rw [cursor_bind_of_reads ha]
    exact hf a hfa

theorem compositional : Compositional (ε := BufferError) Locates where
  pure _ _ _ h := absurd h not_fails_pure
  note _ _ _ h := absurd h not_fails_note
  cursor _ _ h := absurd h not_fails_cursor
  bind := bind

/-- The byte that is refused has been read, so that its place is the one before the cursor. -/
theorem bool : Locates bool := by
  intro c e h
  have hhere : Reads (Reader.cursor : Reader BufferError Cursor) c c c :=
    reads_cursor.mpr ⟨rfl, rfl⟩
  rcases fails_bind.mp h with hfails | ⟨_, _, hcursor, h⟩
  · exact absurd hfails not_fails_cursor
  obtain ⟨rfl, rfl⟩ := reads_cursor.mp hcursor
  rw [Reader.bool, cursor_bind_of_reads hhere]
  rcases fails_bind.mp h with hbyte | ⟨b, c', hb, h⟩
  · rw [cursor_bind_of_fails hbyte]
    exact runsOut_byte.locates hbyte
  · rw [cursor_bind_of_reads hb]
    split at h
    · exact absurd h not_fails_pure
    · split at h
      · exact absurd h not_fails_pure
      · rename_i hzero hone
        obtain rfl := fails_fail.mp h
        rw [if_neg hzero, if_neg hone]
        exact (reads_byte.mp hb).2.symm

theorem primitive (k : Primitive.Kind) : Locates (primitive k) :=
  compositional.primitive bool runsOut_byte.locates
    (fun n => (runsOut_bytes n).locates) runsOut_string.locates k

end Locates

/-! ### Primitives -/

theorem Advances.primitive (k : Primitive.Kind) : Advances (primitive k) :=
  compositional.primitive bool byte bytes string k

theorem delimited_byteArray : Delimited BufferError.Past 1 byteArray :=
  delimited_uint.bind fun n => (delimited_bytes n.toNat).mono (Nat.zero_le _)

theorem delimited_primitive (k : Primitive.Kind) : Delimited BufferError.Past 0 (primitive k) := by
  cases k with
  | bool => exact (delimited_bool.mono (Nat.zero_le _)).map fun _ => .pure _
  | byte => exact (delimited_byte.mono (Nat.zero_le _)).map fun _ => .pure _
  | bytes n => exact ((delimited_bytes n).mono (Nat.zero_le _)).map fun _ => .pure _
  | byteArray => exact (delimited_byteArray.mono (Nat.zero_le _)).map fun _ => .pure _
  | int => exact (delimited_int.mono (Nat.zero_le _)).map fun _ => .pure _
  | uint => exact (delimited_uint.mono (Nat.zero_le _)).map fun _ => .pure _
  | float => exact (delimited_float.mono (Nat.zero_le _)).map fun _ => .pure _
  | string => exact (delimited_string.mono (Nat.zero_le _)).map fun _ => .pure _

end Reader

namespace Primitive

open Reader (Takes)

variable {data : List UInt8} {c : Cursor}

/-- The kinds of primitives that are read in one piece: all of it, or nothing. -/
def Kind.Whole : Kind → Prop
  | .byte | .bytes _ | .string => True
  | .bool | .byteArray | .int | .uint | .float => False

theorem Kind.Whole.primitive {k : Kind} (h : k.Whole) : Reader.Whole (Reader.primitive k) := by
  cases k with
  | byte => exact Reader.runsOut_byte.whole.map _
  | bytes n => exact (Reader.runsOut_bytes n).whole.map _
  | string => exact Reader.runsOut_string.whole.map _
  | bool | byteArray | int | uint | float => exact h.elim

/-- How a read of a kind ends that starts at the place `c` in `data`. -/
structure Kind.Ends (data : List UInt8) (k : Kind) (c : Cursor)
    (o : Outcome BufferError Primitive) : Prop where
  within : o.cursor.Within data
  forward : c.offset ≤ o.cursor.offset
  underflow : ∀ offset needed, o.result = .error (.underflow offset needed) →
    offset = o.cursor.offset ∧ data.length < offset + needed
  invalidBool : ∀ offset byte, o.result = .error (.invalidBool offset byte) →
    offset + 1 = o.cursor.offset
  whole : k.Whole → ∀ e, o.result = .error e → o.cursor = c
  /-- The bytes passed are taken for the answer wherever they are, and whatever is before and behind
  them. -/
  told : ∀ p, o.result = .ok p →
    Takes (Reader.primitive k) ((data.drop c.offset).take (o.cursor.offset - c.offset)) p

/-- The outcomes of reads one after the other, each from where the one before left the cursor,
whether that one failed or not. -/
inductive Resumes (data : List UInt8) : List Kind → Cursor →
    List (Outcome BufferError Primitive) → Prop
  | done {c : Cursor} : Resumes data [] c []
  | step {k : Kind} {ks : List Kind} {c : Cursor} {o : Outcome BufferError Primitive}
      {os : List (Outcome BufferError Primitive)} (hends : k.Ends data c o)
      (hrest : Resumes data ks o.cursor os) :
      Resumes data (k :: ks) c (o :: os)

/-- One read, from any place in the bytes. -/
theorem Kind.ends (k : Kind) (h : c.Within data) : k.Ends data c (Reader.primitive k c) := by
  obtain ⟨n, hn, hcursor⟩ := Reader.Advances.primitive k c
  have hwithin : (Reader.primitive k c).cursor.Within data := hcursor ▸ h.advance hn
  refine ⟨hwithin, ?forward, fun offset needed he => ?underflow, fun offset byte he => ?invalidBool,
    fun hk e he => hk.primitive he, fun p hp => ?told⟩
  case forward =>
    rw [hcursor]
    exact Nat.le_add_right ..
  case underflow =>
    obtain ⟨rfl, hneeded⟩ : BufferError.Locates _ (.underflow offset needed) :=
      Reader.Locates.primitive k he
    have := hwithin.offset_add_remaining
    exact ⟨rfl, by omega⟩
  case invalidBool =>
    have hlocates : BufferError.Locates _ (.invalidBool offset byte) :=
      Reader.Locates.primitive k he
    exact hlocates
  case told =>
    obtain ⟨bs, -, hrest, hoffset, hdelimits⟩ := Reader.delimited_primitive k ⟨hp, rfl⟩
    rw [hoffset, Nat.add_sub_cancel_left, ← h.rest_eq, hrest, List.take_left]
    exact hdelimits.takes

theorem resumes_from (ks : List Kind) (h : c.Within data) :
    Resumes data ks c (Reader.primitives ks c) := by
  induction ks generalizing c with
  | nil => exact .done
  | cons k ks ih => exact .step (k.ends h) (ih (k.ends h).within)

/-- Reads of any kinds, one after the other from the start of any bytes, and on after failures. The
cursor stays among the bytes and does not go back. Bytes that run out are reported at the place
where the cursor is left, and more of them are needed than there are from there on; a byte that is
no truth value is reported at the place before. A byte, some bytes or a text that cannot be read
leaves the cursor where it was; and what is read is told by the bytes passed alone. -/
theorem resumes_primitives (data : List UInt8) (ks : List Kind) :
    Resumes data ks (.start data) (Reader.primitives ks (.start data)) :=
  resumes_from ks (.start data)

/-- A byte array whose count stays read, a byte that is no truth value, and too few bytes; then on
to the end. -/
example : Reader.primitives [.byteArray, .bool, .bytes 3, .uint, .byte] (.start [4, 2, 7, 0x80]) =
    [⟨.error (.underflow 1 4), ⟨1, [2, 7, 0x80]⟩, []⟩,
      ⟨.error (.invalidBool 1 2), ⟨2, [7, 0x80]⟩, []⟩,
      ⟨.error (.underflow 2 3), ⟨2, [7, 0x80]⟩, []⟩,
      ⟨.ok (.uint 7), ⟨3, [0x80]⟩, []⟩,
      ⟨.ok (.byte 0x80), ⟨4, []⟩, []⟩] := by decide

end Primitive

end WireSchema
