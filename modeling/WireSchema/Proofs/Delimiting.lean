import Mathlib.Algebra.GroupWithZero.Nat
import WireSchema.Proofs.Primitive

/-! Readers that find the end of what they read by themselves. `Delimits` says this of some bytes:
they are taken for a value whatever follows, and on a part of them the bytes run out. `Delimited`
says it of a reader: whatever it answers comes from such bytes. It has one law for each way in which
readers are put together, and holds of all primitives. -/

namespace WireSchema

/-- The bytes run out at `stop`: some behind it would have been needed. -/
def BufferError.Past (stop : Nat) (e : BufferError) : Prop :=
  ∃ offset needed, e = .underflow offset needed ∧ stop < offset + needed

namespace Reader

variable {ε ε' α β γ : Type} {E : Nat → ε → Prop} {m : Reader ε α} {f : α → Reader ε β}
  {bs bs' : List UInt8} {a : α} {b : β}

/-- `m` takes `bs` for `a`, and on any part of them that leaves out their end, `m` fails with an
error of `E` at the end of the part. -/
structure Delimits (E : Nat → ε → Prop) (m : Reader ε α) (bs : List UInt8) (a : α) : Prop where
  takes : Takes m bs a
  fails : ∀ {part rest}, bs = part ++ rest → rest ≠ [] → ∀ offset,
    ∃ e, E (offset + part.length) e ∧ Fails m ⟨offset, part⟩ e

namespace Delimits

theorem of_nil (h : Takes m [] a) : Delimits E m [] a :=
  ⟨h, fun hparts hrest => absurd (List.append_eq_nil_iff.mp hparts.symm).2 hrest⟩

/-- The bytes run out in the first step, or behind its bytes in the second. -/
theorem bind (h : Delimits E m bs a) (h' : Delimits E (f a) bs' b) :
    Delimits E (m >>= f) (bs ++ bs') b where
  takes := h.takes.bind h'.takes
  fails {part rest} hparts hrest offset := by
    rcases List.append_eq_append_iff.mp hparts with ⟨part', rfl, rfl⟩ | ⟨rest', rfl, rfl⟩
    · obtain ⟨e, he, hfails⟩ := h'.fails rfl hrest (offset + bs.length)
      rw [Nat.add_assoc, ← List.length_append] at he
      exact ⟨e, he, fails_bind.mpr (.inr ⟨a, _, h.takes offset part', hfails⟩)⟩
    · by_cases hrest' : rest' = []
      · subst hrest'
        obtain ⟨e, he, hfails⟩ := h'.fails (List.nil_append bs').symm hrest (offset + part.length)
        have hm := h.takes offset []
        rw [List.append_nil, List.append_nil] at hm
        exact ⟨e, he, fails_bind.mpr (.inr ⟨a, _, hm, hfails⟩)⟩
      · obtain ⟨e, he, hfails⟩ := h.fails rfl hrest' offset
        exact ⟨e, he, fails_bind.mpr (.inl hfails)⟩

theorem map (h : Delimits E m bs a) (h' : Takes (f a) [] b) : Delimits E (m >>= f) bs b := by
  simpa using h.bind (of_nil h')

theorem mapError {E' : Nat → ε' → Prop} {g : ε → ε'} (hg : ∀ {stop e}, E stop e → E' stop (g e))
    (h : Delimits E m bs a) : Delimits E' (m.mapError g) bs a where
  takes := h.takes.mapError
  fails hparts hrest offset := by
    obtain ⟨e, he, hfails⟩ := h.fails hparts hrest offset
    exact ⟨g e, hg he, fails_mapError.mpr ⟨e, hfails, rfl⟩⟩

end Delimits

/-- Whatever `m` answers comes from bytes of its own, at least so many of them. -/
def Delimited (E : Nat → ε → Prop) (least : Nat) (m : Reader ε α) : Prop :=
  ∀ ⦃c a c'⦄, Reads m c a c' → ∃ bs : List UInt8, least ≤ bs.length ∧ c.rest = bs ++ c'.rest ∧
    c'.offset = c.offset + bs.length ∧ Delimits E m bs a

namespace Delimited

variable {k l : Nat}

theorem mono (h : Delimited E k m) (hl : l ≤ k) : Delimited E l m := by
  intro c a c' hm
  obtain ⟨bs, hk, hrest⟩ := h hm
  exact ⟨bs, hl.trans hk, hrest⟩

theorem pure (a : α) : Delimited E 0 (pure a : Reader ε α) := by
  rintro c _ _ h
  obtain ⟨rfl, rfl⟩ := reads_pure.mp h
  exact ⟨[], Nat.zero_le _, rfl, rfl, .of_nil (Takes.pure a)⟩

theorem fail (e : ε) : Delimited E k (fail e : Reader ε α) := fun _ _ _ h => absurd h not_reads_fail

theorem note (n : Note) : Delimited E 0 (note n : Reader ε Unit) := by
  rintro c ⟨⟩ _ h
  obtain rfl := reads_note.mp h
  exact ⟨[], Nat.zero_le _, rfl, rfl, .of_nil (Takes.note n)⟩

theorem bind (h : Delimited E k m) (hf : ∀ a, Delimited E l (f a)) :
    Delimited E (k + l) (m >>= f) := by
  intro c b c'' hb
  obtain ⟨a, c', ha, hb⟩ := reads_bind.mp hb
  obtain ⟨bs, hk, hrest, hoffset, hm⟩ := h ha
  obtain ⟨bs', hl, hrest', hoffset', hfa⟩ := hf a hb
  refine ⟨bs ++ bs', ?_, ?_, ?_, hm.bind hfa⟩
  · rw [List.length_append]
    omega
  · rw [hrest, hrest', List.append_assoc]
  · rw [hoffset', hoffset, List.length_append, Nat.add_assoc]

/-- A step that reads nothing after one that does. -/
theorem map (h : Delimited E k m) (hf : ∀ a, Delimited E 0 (f a)) :
    Delimited E k (m >>= f) := h.bind hf

theorem mapError {E' : Nat → ε' → Prop} {g : ε → ε'} (hg : ∀ {stop e}, E stop e → E' stop (g e))
    (h : Delimited E k m) : Delimited E' k (m.mapError g) := by
  intro c a c' ha
  obtain ⟨bs, hk, hrest, hoffset, hm⟩ := h (reads_mapError.mp ha)
  exact ⟨bs, hk, hrest, hoffset, hm.mapError hg⟩

theorem times (h : Delimited E k m) (n : Nat) : Delimited E (n * k) (m.times n) := by
  induction n with
  | zero => exact (pure []).mono (by simp)
  | succ n ih =>
    have := h.bind fun a => ih.map fun as => pure (E := E) (a :: as)
    rwa [Nat.add_one_mul, Nat.add_comm]

theorem foldl {step : β → γ → Reader ε β} {least : γ → Nat} {xs : List γ}
    (h : ∀ x ∈ xs, ∀ b, Delimited E (least x) (step b x)) (b : β) :
    Delimited E (xs.map least).sum (foldl step xs b) := by
  induction xs generalizing b with
  | nil => exact pure b
  | cons x xs ih =>
    obtain ⟨hx, hxs⟩ := List.forall_mem_cons.mp h
    rw [List.map_cons, List.sum_cons]
    exact (hx b).bind fun b => ih hxs b

/-- A reader that takes the bytes left as the bound of a loop. -/
theorem of_bounded {g : Nat → Reader ε α} (hg : ∀ n, Delimited E k (g n))
    (hm : ∀ {c n}, c.remaining ≤ n → m c = g n c) : Delimited E k m := by
  intro c a c' h
  obtain ⟨bs, hk, hrest, hoffset, -⟩ := hg _ ((reads_congr (hm (Nat.le_refl _))).mp h)
  have hbs : ∀ n, c.remaining ≤ n → Delimits E (g n) bs a := by
    intro n hn
    obtain ⟨bs', -, hrest', -, hbs'⟩ := hg _ ((reads_congr (hm hn)).mp h)
    rwa [List.append_cancel_right (hrest.symm.trans hrest')]
  refine ⟨bs, hk, hrest, hoffset, fun offset rest => ?_, fun {part rest} hparts hne offset => ?_⟩
  · rw [reads_congr (hm (Nat.le_max_right c.remaining _))]
    exact (hbs _ (Nat.le_max_left _ _)).takes offset rest
  · obtain ⟨e, he, hfails⟩ := (hbs _ (Nat.le_refl _)).fails hparts hne offset
    refine ⟨e, he, (fails_congr (hm ?_)).mpr hfails⟩
    simp only [Cursor.remaining, hrest, hparts, List.length_append]
    omega

/-- The bytes left do not become more, and become fewer by as many as are read at least. -/
theorem remaining_le {c c' : Cursor} (h : Delimited E k m) (ha : Reads m c a c') :
    c'.remaining + k ≤ c.remaining := by
  obtain ⟨bs, hk, hrest, -⟩ := h ha
  rw [Cursor.remaining, Cursor.remaining, hrest, List.length_append]
  omega

end Delimited

/-! ### Primitives -/

theorem delimits_byte (b : UInt8) : Delimits BufferError.Past byte [b] b where
  takes := .byte b
  fails {part rest} hparts hrest offset := by
    obtain rfl : part = [] := by
      cases part with
      | nil => rfl
      | cons b' part => simp_all
    exact ⟨_, ⟨offset, 1, rfl, Nat.lt_succ_self _⟩, rfl⟩

theorem delimited_byte : Delimited BufferError.Past 1 byte := by
  intro c b c' h
  obtain ⟨hrest, hoffset⟩ := reads_byte.mp h
  exact ⟨[b], Nat.le_refl 1, hrest, hoffset, delimits_byte b⟩

theorem delimited_bytes (n : Nat) : Delimited BufferError.Past n (bytes n) := by
  intro c bs c' h
  obtain ⟨rfl, hrest, hoffset⟩ := reads_bytes.mp h
  refine ⟨bs, Nat.le_refl _, hrest, hoffset, .bytes bs, fun {part rest} hparts hne offset => ?_⟩
  have hshort : part.length < bs.length := by
    have := List.length_pos_iff.mpr hne
    rw [hparts, List.length_append]
    omega
  refine ⟨.underflow offset bs.length, ⟨offset, bs.length, rfl, by omega⟩, ?_⟩
  simp [Fails, bytes, Cursor.remaining, Nat.not_le.mpr hshort, underflow]

theorem delimited_groups (k : Nat) : Delimited BufferError.Past (min k 1) (groups k) := by
  induction k with
  | zero => exact .pure 0
  | succ k ih =>
    rw [show min (k + 1) 1 = 1 by omega]
    refine delimited_byte.map fun b => ?_
    split
    · exact .pure _
    · exact (ih.mono (Nat.zero_le _)).map fun n => .pure _

theorem delimited_uint : Delimited BufferError.Past 1 uint :=
  (delimited_groups 5).map fun _ => .pure _

theorem delimited_int : Delimited BufferError.Past 1 int := delimited_uint.map fun _ => .pure _

theorem delimited_bool : Delimited BufferError.Past 1 bool := by
  intro c a c' h
  obtain ⟨hrest, hoffset⟩ := reads_byte.mp (reads_bool.mp h)
  refine ⟨Wire.bool a, Nat.le_refl 1, hrest, hoffset, takes_bool a,
    fun {part rest} hparts hne offset => ?_⟩
  obtain ⟨e, he, hfails⟩ := (delimits_byte _).fails hparts hne offset
  refine ⟨e, he, fails_bind.mpr (.inr ⟨_, _, reads_cursor.mpr ⟨rfl, rfl⟩, ?_⟩)⟩
  exact fails_bind.mpr (.inl hfails)

theorem delimited_float : Delimited BufferError.Past 1 float := by
  refine delimited_byte.map fun first => ?_
  split
  · exact .pure _
  · exact ((delimited_bytes 3).mono (Nat.zero_le _)).map fun rest => .pure _

/-- A text ends with a zero byte, so that on a part of its bytes there is none. -/
theorem delimited_string : Delimited BufferError.Past 1 string := by
  intro c s c' h
  obtain ⟨content, hne, hrest, hoffset, rfl⟩ := reads_string h
  refine ⟨content ++ [0], by simp, by simp [hrest], by simp [hoffset], ?_, ?_⟩
  · intro offset rest
    have h : Reads string ⟨offset, content ++ 0 :: rest⟩ (Utf8.decodeLossy content)
        ⟨offset + (content.length + 1), rest⟩ := reads_string_content hne offset
    simpa using h
  · intro part rest hparts hrest offset
    have hnonzero : ∀ b ∈ part, b ≠ 0 := by
      obtain ⟨rest, b, rfl⟩ := List.eq_nil_or_concat rest |>.resolve_left hrest
      rw [List.concat_eq_append, ← List.append_assoc] at hparts
      obtain ⟨rfl, -⟩ := List.append_inj' hparts rfl
      exact fun b hb => hne b (List.mem_append_left _ hb)
    have hall : part.takeWhile (· ≠ 0) = part :=
      List.takeWhile_eq_self_iff.mpr (by simpa using hnonzero)
    refine ⟨.underflow offset (part.length + 1), ⟨offset, part.length + 1, rfl, by omega⟩, ?_⟩
    simp only [Fails, string, hall, Cursor.remaining, Nat.lt_irrefl, ↓reduceIte, underflow]

end Reader

end WireSchema
