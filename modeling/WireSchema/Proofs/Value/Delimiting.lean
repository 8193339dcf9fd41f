import WireSchema.Proofs.Catalog.ZeroWidth
import WireSchema.Proofs.Delimiting
import WireSchema.Value.Decode

/-! Values find their own end. Whatever catalog they are read with, the bytes that a value is read
from are read as that value whatever follows them, and on a part of them that leaves out their end
the bytes run out. -/

namespace WireSchema

/-- The bytes run out at `stop`: some behind it would have been needed. -/
def DecodeError.Past (stop : Nat) (e : DecodeError) : Prop := ∃ e', e = .buffer e' ∧ e'.Past stop

namespace Catalog

open DecodeError (Past)
open Reader (Reads Fails Takes Delimits Delimited)

variable {c : Catalog} {d : Definition} {inner : Shape → Reader DecodeError Value}

theorem delimited_lift {α : Type} {k : Nat} {m : Reader BufferError α}
    (h : Delimited BufferError.Past k m) : Delimited Past k (monadLift m : Reader DecodeError α) :=
  h.mapError fun {_ e} he => ⟨e, rfl, he⟩

theorem delimited_readEntry : Delimited Past 1 (readEntry d) := by
  refine (delimited_lift Reader.delimited_uint).map fun value => ?_
  split
  · exact .pure _
  · exact .fail _

/-! ### Structs and messages -/

/-- How many bytes a value of a shape takes at least: none for a type that takes no bytes, or
one. -/
def leastWidth (c : Catalog) : Shape → Nat
  | .one type => if c.isZeroWidth type then 0 else 1
  | .many _ => 1

theorem delimited_readStruct (h : ∀ shape, Delimited Past (c.leastWidth shape) (inner shape)) :
    Delimited Past (d.fields.map fun f => c.leastWidth f.shape).sum (readStruct inner d) := by
  refine (Delimited.foldl (fun f _ members => ?_) []).map fun members => .pure _
  exact (h f.shape).map fun v => .pure _

/-- A struct that takes bytes has a field that does. -/
theorem leastWidth_le_sum {index : Nat} (hd : c.definitions[index]? = some d)
    (hk : d.kind = .struct) :
    c.leastWidth (.one (.definition index)) ≤ (d.fields.map fun f => c.leastWidth f.shape).sum := by
  by_cases hz : c.isZeroWidth (.definition index) = true
  · simp [leastWidth, hz]
  · obtain ⟨f, hf, hwide⟩ : ∃ f ∈ d.fields, 0 < c.leastWidth f.shape := by
      rw [isZeroWidth_definition_iff hd] at hz
      simp only [hk, true_and, not_forall] at hz
      obtain ⟨f, hf, hwide⟩ := hz
      refine ⟨f, hf, ?_⟩
      cases harray : f.isArray <;> simp_all [Field.shape, leastWidth]
    rw [leastWidth, if_neg hz]
    exact List.sum_pos_iff_exists_pos_nat.mpr ⟨_, List.mem_map_of_mem hf, hwide⟩

section Messages

variable (h : ∀ shape, Delimited Past 0 (inner shape))
include h

theorem delimited_readMember (id : UInt32) (members : List (String × Value)) :
    Delimited Past 0 (readMember inner d id members) := by
  unfold readMember
  split
  · refine (h _).map fun v => ?_
    split
    · exact (Delimited.note _).map fun _ => .pure _
    · exact .pure _
  · refine ((delimited_lift Reader.delimited_uint).mono (Nat.zero_le _)).map fun value => ?_
    exact (Delimited.note _).map fun _ => .pure _

theorem delimited_readMembers (n : Nat) (members : List (String × Value)) :
    Delimited Past 1 (readMembers inner d n members) := by
  induction n generalizing members with
  | zero => exact (delimited_lift Reader.delimited_uint).map fun _ => .pure _
  | succ n ih =>
    refine (delimited_lift Reader.delimited_uint).map fun id => ?_
    split
    · exact .pure _
    · exact (delimited_readMember h id members).map fun members => (ih members).mono (Nat.zero_le _)

/-- Members are read alike under all bounds that the bytes left do not exceed. -/
theorem readMembers_eq {n k : Nat} {members : List (String × Value)} {cursor : Cursor}
    (hn : cursor.remaining ≤ n) (hk : cursor.remaining ≤ k) :
    readMembers inner d n members cursor = readMembers inner d k members cursor := by
  have hid := delimited_lift Reader.delimited_uint
  induction n generalizing k members cursor with
  | zero =>
    cases k with
    | zero => rfl
    | succ k =>
      apply Reader.bind_congr_of_reads
      intro id cursor' hread
      have := hid.remaining_le hread
      omega
  | succ n ih =>
    cases k with
    | zero =>
      apply Reader.bind_congr_of_reads
      intro id cursor' hread
      have := hid.remaining_le hread
      omega
    | succ k =>
      apply Reader.bind_congr_of_reads
      intro id cursor' hread
      have hless := hid.remaining_le hread
      split
      · rfl
      · apply Reader.bind_congr_of_reads
        intro members' cursor'' hmember
        have := (delimited_readMember h id members).remaining_le hmember
        exact ih (by omega) (by omega)

theorem readMessage_eq {n : Nat} {cursor : Cursor} (hn : cursor.remaining ≤ n) :
    readMessage inner d cursor =
      (do return Value.object d.name (← readMembers inner d n [])) cursor := by
  show (readMembers inner d cursor.remaining [] >>= fun members =>
    pure (Value.object d.name members)) cursor = _
  rw [Reader.bind_eq, Reader.bind_eq, readMembers_eq h (Nat.le_refl _) hn]

theorem delimited_readMessage : Delimited Past 1 (readMessage inner d) :=
  .of_bounded (fun n => (delimited_readMembers h n []).map fun _ => .pure _) (readMessage_eq h)

end Messages

/-! ### Arrays -/

/-- Fails if not so many items of a type can follow. -/
def checkCount (c : Catalog) (type : TypeRef) (n : Nat) : Reader DecodeError Unit := do
  let here ← Reader.cursor
  if c.isZeroWidth type then
    if maxZeroWidthLength < n then Reader.fail (.arrayTooLong n)
  else if here.remaining < n then
    Reader.fail (.buffer (.underflow here.offset n))

theorem readCount_eq (type : TypeRef) : c.readCount type = (do
    let n ← (monadLift Reader.uint : Reader DecodeError UInt32)
    c.checkCount type n.toNat
    return n.toNat) := by
  unfold readCount checkCount
  simp only [bind_assoc]
  congr 1
  funext n
  congr 1
  funext here
  split_ifs <;> rfl

theorem checkCount_apply (type : TypeRef) (n : Nat) (cursor : Cursor) : c.checkCount type n cursor =
    (if c.isZeroWidth type then
        if maxZeroWidthLength < n then Reader.fail (.arrayTooLong n) else pure ()
      else if cursor.remaining < n then Reader.fail (.buffer (.underflow cursor.offset n))
      else pure () : Reader DecodeError Unit) cursor := rfl

theorem reads_checkCount {type : TypeRef} {n : Nat} {cursor cursor' : Cursor} {u : Unit} :
    Reads (c.checkCount type n) cursor u cursor' ↔
      (if c.isZeroWidth type then n ≤ maxZeroWidthLength else n ≤ cursor.remaining) ∧
      cursor = cursor' := by
  rw [Reader.reads_congr (checkCount_apply type n cursor)]
  split_ifs <;> simp <;> omega

/-- Of the items of an array there are no more than bytes, if they take bytes; so a part of the
bytes is too short for the count, or for the items. -/
theorem delimits_items {m : Reader DecodeError Value} {type : TypeRef} {n : Nat} {bs : List UInt8}
    {items : List Value} (h : Delimits Past (m.times n) bs items)
    (hn : if c.isZeroWidth type then n ≤ maxZeroWidthLength else n ≤ bs.length) :
    Delimits Past (do c.checkCount type n; return Value.array (← m.times n)) bs (.array items) := by
  have hitems : Delimits Past (do return Value.array (← m.times n)) bs (.array items) :=
    h.map (.pure _)
  constructor
  case takes =>
    intro offset rest
    refine Reader.reads_bind.mpr ⟨(), _, reads_checkCount.mpr ⟨?_, rfl⟩, hitems.takes offset rest⟩
    rw [Cursor.remaining, List.length_append]
    split_ifs at hn ⊢ <;> omega
  case fails =>
    intro part rest hparts hrest offset
    by_cases hcount : if c.isZeroWidth type then n ≤ maxZeroWidthLength else n ≤ part.length
    · obtain ⟨e, he, hfails⟩ := hitems.fails hparts hrest offset
      exact ⟨e, he,
        Reader.fails_bind.mpr (.inr ⟨(), _, reads_checkCount.mpr ⟨hcount, rfl⟩, hfails⟩)⟩
    · have hz : ¬ c.isZeroWidth type = true := fun hz => by simp_all
      rw [if_neg hz, Nat.not_le] at hcount
      refine ⟨_, ⟨.underflow offset n, rfl, offset, n, rfl, by omega⟩,
        Reader.fails_bind.mpr (.inl ?_)⟩
      rw [Reader.fails_congr (checkCount_apply type n _), if_neg hz, Cursor.remaining,
        if_pos hcount]
      exact Reader.fails_fail.mpr rfl

theorem delimited_array (h : ∀ shape, Delimited Past (c.leastWidth shape) (inner shape))
    (type : TypeRef) :
    Delimited Past 1
      (do let n ← c.readCount type; return Value.array (← (inner (.one type)).times n)) := by
  have heq : (do let n ← c.readCount type; return Value.array (← (inner (.one type)).times n)) = (do
      let n ← (monadLift Reader.uint : Reader DecodeError UInt32)
      c.checkCount type n.toNat
      return Value.array (← (inner (.one type)).times n.toNat)) := by
    simp only [readCount_eq, bind_assoc, pure_bind]
  rw [heq]
  refine (delimited_lift Reader.delimited_uint).map fun n => ?_
  intro cursor v cursor' hread
  obtain ⟨⟨⟩, _, hcount, hread⟩ := Reader.reads_bind.mp hread
  obtain ⟨hn, rfl⟩ := reads_checkCount.mp hcount
  obtain ⟨items, _, hitems, hread⟩ := Reader.reads_bind.mp hread
  obtain ⟨rfl, rfl⟩ := Reader.reads_pure.mp hread
  obtain ⟨bs, hleast, hrest, hoffset, hbs⟩ := (h (.one type)).times n.toNat hitems
  refine ⟨bs, Nat.zero_le _, hrest, hoffset, delimits_items hbs ?_⟩
  split_ifs at hn ⊢ with hz
  · exact hn
  · simpa [leastWidth, hz] using hleast

/-! ### Values of all shapes -/

theorem delimited_primitive {α : Type} {m : Reader BufferError α} {type : TypeRef}
    (make : α → Value) (htype : ∀ index, type ≠ .definition index)
    (h : Delimited BufferError.Past 1 m) :
    Delimited Past (c.leastWidth (.one type)) (do return make (← m)) := by
  rw [leastWidth, if_neg (not_isZeroWidth_primitive htype)]
  exact (delimited_lift h).map fun _ => .pure _

theorem delimited_readShape {inner : Option (Shape → Reader DecodeError Value)}
    (h : ∀ read ∈ inner, ∀ shape, Delimited Past (c.leastWidth shape) (read shape))
    (shape : Shape) : Delimited Past (c.leastWidth shape) (c.readShape inner shape) := by
  cases shape with
  | many type =>
    cases inner with
    | none => exact .fail _
    | some read => exact delimited_array (h read rfl) type
  | one type =>
    cases type with
    | bool => exact delimited_primitive .bool nofun Reader.delimited_bool
    | byte => exact delimited_primitive .byte nofun Reader.delimited_byte
    | int => exact delimited_primitive .int nofun Reader.delimited_int
    | uint => exact delimited_primitive .uint nofun Reader.delimited_uint
    | float => exact delimited_primitive .float nofun Reader.delimited_float
    | string => exact delimited_primitive .string nofun Reader.delimited_string
    | definition index =>
      rw [readShape]
      split
      · exact .fail _
      · rename_i d hd
        have hle : c.leastWidth (.one (.definition index)) ≤ 1 := by
          rw [leastWidth]
          split <;> omega
        split
        · exact delimited_readEntry.mono hle
        · exact .fail _
        · rename_i hk
          exact (delimited_readStruct (h _ rfl)).mono (leastWidth_le_sum hd hk)
        · exact (delimited_readMessage fun shape => (h _ rfl shape).mono (Nat.zero_le _)).mono hle

/-- Whatever is read of any catalog finds its own end. By induction on the levels. -/
theorem delimited_readWithin (levels : Nat) (shape : Shape) :
    Delimited Past (c.leastWidth shape) (c.readWithin levels shape) := by
  induction levels generalizing shape with
  | zero => exact delimited_readShape (by simp) shape
  | succ levels ih =>
    refine delimited_readShape (fun read hread => ?_) shape
    obtain rfl := Option.some.inj hread
    exact ih

/-- Reading a value stops behind the bytes that stand for it: they are read as that value whatever
follows them, and where any of them is missing at the end, reading runs out of bytes behind the
end. -/
theorem readValue_delimits {type : TypeRef} {bytes : List UInt8} {v : Value} {stop : Cursor}
    (h : Reads (c.readValue type) (.start bytes) v stop) :
    stop.offset ≤ bytes.length ∧ stop.rest = bytes.drop stop.offset ∧
      (∀ rest,
        Reads (c.readValue type) (.start (bytes.take stop.offset ++ rest)) v ⟨stop.offset, rest⟩) ∧
      ∀ n < stop.offset, ∃ offset needed, n < offset + needed ∧
        Fails (c.readValue type) (.start (bytes.take n)) (.buffer (.underflow offset needed)) := by
  obtain ⟨bs, -, hrest, hoffset, hbs⟩ := delimited_readWithin maxDepth (.one type) h
  obtain ⟨offset, rest⟩ := stop
  obtain rfl : offset = bs.length := by simpa [Cursor.start] using hoffset
  obtain rfl : bytes = bs ++ rest := hrest
  refine ⟨by simp, by simp, fun rest' => ?_, fun n hn => ?_⟩
  · have := hbs.takes 0 rest'
    rw [Nat.zero_add] at this
    rwa [List.take_left]
  · have hparts : bs = bs.take n ++ bs.drop n := (List.take_append_drop n bs).symm
    have hne : bs.drop n ≠ [] := by simpa using hn
    obtain ⟨_, ⟨_, rfl, offset, needed, rfl, hpast⟩, hfails⟩ := hbs.fails hparts hne 0
    rw [Nat.zero_add, List.length_take_of_le (Nat.le_of_lt hn)] at hpast
    refine ⟨offset, needed, hpast, ?_⟩
    rw [List.take_append_of_le_length (Nat.le_of_lt hn)]
    exact hfails

/-- A struct that no schema would give, with one name for two fields. -/
theorem readValue_delimits_repeated_name :
    let c : Catalog :=
      ⟨[⟨"Pair", .struct, [⟨"x", .byte, false, false, 1⟩, ⟨"x", .uint, true, false, 1⟩]⟩]⟩
    let v : Value := .object "Pair" [("x", .array [.uint 1, .uint 200])]
    Reads (c.readValue (.definition 0)) (.start [7, 2, 1, 200, 1, 99]) v ⟨5, [99]⟩ ∧
      (∀ rest,
        Reads (c.readValue (.definition 0)) (.start ([7, 2, 1, 200, 1] ++ rest)) v ⟨5, rest⟩) ∧
      ∀ n < 5, ∃ offset needed, n < offset + needed ∧
        Fails (c.readValue (.definition 0)) (.start ([7, 2, 1, 200, 1, 99].take n))
          (.buffer (.underflow offset needed)) := by
  intro c v
  have hread : Reads (c.readValue (.definition 0)) (.start [7, 2, 1, 200, 1, 99]) v ⟨5, [99]⟩ :=
    ⟨rfl, rfl⟩
  obtain ⟨-, -, htakes, hfails⟩ := readValue_delimits hread
  exact ⟨hread, htakes, hfails⟩

end Catalog

end WireSchema
