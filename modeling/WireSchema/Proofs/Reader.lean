import WireSchema.Bytes.Reader

/-! The laws of readers. `Reads` and `Fails` say how a reader ends at a cursor, and have one law for
each way in which readers are put together; they serve both to run a reader forward and to take a
run apart. `Takes` is the part of this that round trips need: a reader that answers some value at
some bytes, whatever comes before and after them. `Settles` adds the condition under which it does,
and what happens otherwise. -/

namespace WireSchema.Reader

variable {ε ε' α β γ : Type} {m : Reader ε α} {f : α → Reader ε β} {c c' : Cursor}

/-- At `c`, `m` answers `a` and leaves the cursor at `c'`. -/
def Reads (m : Reader ε α) (c : Cursor) (a : α) (c' : Cursor) : Prop :=
  (m c).result = .ok a ∧ (m c).cursor = c'

/-- At `c`, `m` fails with `e`. -/
def Fails (m : Reader ε α) (c : Cursor) (e : ε) : Prop := (m c).result = .error e

theorem Reads.not_fails {a : α} {e : ε} (h : Reads m c a c') : ¬ Fails m c e := by
  intro hf
  have := h.1.symm.trans hf
  simp at this

theorem Reads.unique {a b : α} {c'' : Cursor} (h : Reads m c a c') (h' : Reads m c b c'') :
    a = b ∧ c' = c'' :=
  ⟨Except.ok.inj (h.1.symm.trans h'.1), h.2.symm.trans h'.2⟩

/-- Somewhere `m` answers `a`. -/
def Answers (m : Reader ε α) (a : α) : Prop := ∃ c c', Reads m c a c'

/-! ### Steps -/

@[simp] theorem reads_pure {a b : α} :
    Reads (pure a : Reader ε α) c b c' ↔ a = b ∧ c = c' := by
  show Except.ok a = Except.ok b ∧ c = c' ↔ a = b ∧ c = c'
  simp

@[simp] theorem not_fails_pure {a : α} {e : ε} : ¬ Fails (pure a : Reader ε α) c e := by
  show ¬ Except.ok a = Except.error e
  simp

@[simp] theorem not_reads_fail {a : α} {e : ε} : ¬ Reads (fail e : Reader ε α) c a c' := by
  simp [Reads, fail]

@[simp] theorem fails_fail {e e' : ε} : Fails (fail e : Reader ε α) c e' ↔ e = e' := by
  simp [Fails, fail]

@[simp] theorem reads_note {n : Note} {u : Unit} :
    Reads (note n : Reader ε Unit) c u c' ↔ c = c' := by
  simp [Reads, note]

@[simp] theorem not_fails_note {n : Note} {e : ε} : ¬ Fails (note n : Reader ε Unit) c e := by
  simp [Fails, note]

@[simp] theorem reads_cursor {d : Cursor} :
    Reads (cursor : Reader ε Cursor) c d c' ↔ c = d ∧ c = c' := by
  simp [Reads, cursor]

@[simp] theorem not_fails_cursor {e : ε} : ¬ Fails (cursor : Reader ε Cursor) c e := by
  simp [Fails, cursor]

/-- A sequence in terms of how its first step ends. -/
theorem bind_eq (m : Reader ε α) (f : α → Reader ε β) (c : Cursor) : (m >>= f) c =
    match (m c).result with
    | .ok a =>
      let next := f a (m c).cursor
      ⟨next.result, next.cursor, (m c).notes ++ next.notes⟩
    | .error e => ⟨.error e, (m c).cursor, (m c).notes⟩ := by
  show Reader.bind m f c = _
  unfold Reader.bind
  split <;> simp_all

theorem bind_pure_right (m : Reader ε α) : (m >>= pure) = m := by
  funext c
  rw [bind_eq]
  obtain ⟨_ | _, _, _⟩ := m c
  · rfl
  · exact congrArg (Outcome.mk _ _) (List.append_nil _)

theorem bind_bind (m : Reader ε α) (f : α → Reader ε β) (g : β → Reader ε γ) :
    m >>= f >>= g = m >>= fun a => f a >>= g := by
  funext c
  rw [bind_eq, bind_eq, bind_eq]
  obtain ⟨_ | a, c', notes⟩ := m c
  · rfl
  · dsimp only
    rw [bind_eq]
    obtain ⟨_ | b, c'', notes'⟩ := f a c'
    · rfl
    · exact congrArg (Outcome.mk _ _) (List.append_assoc ..)

instance : LawfulMonad (Reader ε) := .mk' _ bind_pure_right (fun _ _ => rfl) bind_bind

/-- A sequence answers what its second step answers, from where the first one ended. -/
theorem reads_bind {b : β} {c'' : Cursor} :
    Reads (m >>= f) c b c'' ↔ ∃ a c', Reads m c a c' ∧ Reads (f a) c' b c'' := by
  unfold Reads
  rw [bind_eq]
  cases (m c).result with
  | error e => simp
  | ok a =>
    constructor
    · intro h
      exact ⟨a, _, ⟨rfl, rfl⟩, h⟩
    · rintro ⟨_, _, ⟨⟨⟩, rfl⟩, h⟩
      exact h

/-- A sequence fails in its first step, or in the second from where the first one ended. -/
theorem fails_bind {e : ε} :
    Fails (m >>= f) c e ↔ Fails m c e ∨ ∃ a c', Reads m c a c' ∧ Fails (f a) c' e := by
  unfold Fails Reads
  rw [bind_eq]
  cases (m c).result with
  | error e' => simp
  | ok a =>
    constructor
    · intro h
      exact .inr ⟨a, _, ⟨rfl, rfl⟩, h⟩
    · rintro (h | ⟨_, _, ⟨⟨⟩, rfl⟩, h⟩)
      · cases h
      · exact h

@[simp] theorem reads_map {g : α → β} {b : β} :
    Reads (g <$> m) c b c' ↔ ∃ a, Reads m c a c' ∧ g a = b := by
  rw [map_eq_pure_bind, reads_bind]
  simp only [reads_pure]
  exact ⟨fun ⟨a, _, h, hb, hc⟩ => ⟨a, hc ▸ h, hb⟩, fun ⟨a, h, hb⟩ => ⟨a, _, h, hb, rfl⟩⟩

@[simp] theorem fails_map {g : α → β} {e : ε} : Fails (g <$> m) c e ↔ Fails m c e := by
  rw [map_eq_pure_bind, fails_bind]
  simp only [not_fails_pure, and_false, exists_false, or_false]

/-- Only the run at a cursor tells how a reader ends there. -/
theorem reads_congr {m' : Reader ε α} {a : α} (h : m c = m' c) :
    Reads m c a c' ↔ Reads m' c a c' := by
  rw [Reads, Reads, h]

theorem fails_congr {m' : Reader ε α} {e : ε} (h : m c = m' c) : Fails m c e ↔ Fails m' c e := by
  rw [Fails, Fails, h]

/-- What comes after a step matters only where the step can lead. -/
theorem bind_congr_of_reads {g : α → Reader ε β} (h : ∀ a c', Reads m c a c' → f a c' = g a c') :
    (m >>= f) c = (m >>= g) c := by
  rw [bind_eq, bind_eq]
  cases ha : (m c).result with
  | error e => rfl
  | ok a => simp only [h a _ ⟨ha, rfl⟩]

@[simp] theorem reads_mapError {g : ε → ε'} {a : α} :
    Reads (mapError g m) c a c' ↔ Reads m c a c' := by
  show Except.mapError g (m c).result = .ok a ∧ (m c).cursor = c' ↔ _
  unfold Reads
  cases (m c).result with
  | ok b =>
    show Except.ok b = .ok a ∧ _ ↔ _
    simp
  | error e =>
    show Except.error (g e) = .ok a ∧ _ ↔ _
    simp

theorem fails_mapError {g : ε → ε'} {e : ε'} :
    Fails (mapError g m) c e ↔ ∃ e', Fails m c e' ∧ g e' = e := by
  show Except.mapError g (m c).result = .error e ↔ _
  unfold Fails
  cases (m c).result with
  | ok a =>
    show Except.ok a = .error e ↔ _
    simp
  | error e' =>
    show Except.error (g e') = .error e ↔ _
    simp

/-! ### Bytes -/

/-- The next byte is there, and behind it the cursor stops. -/
theorem reads_byte {b : UInt8} :
    Reads byte c b c' ↔ c.rest = b :: c'.rest ∧ c'.offset = c.offset + 1 := by
  obtain ⟨offset, rest⟩ := c
  obtain ⟨offset', rest'⟩ := c'
  cases rest with
  | nil => simp [Reads, byte, underflow]
  | cons b' rest =>
    simp only [Reads, byte, Cursor.advance, List.drop_succ_cons, List.drop_zero,
      Except.ok.injEq, Cursor.mk.injEq, List.cons.injEq]
    constructor
    · rintro ⟨rfl, rfl, rfl⟩
      exact ⟨⟨rfl, rfl⟩, rfl⟩
    · rintro ⟨⟨rfl, rfl⟩, rfl⟩
      exact ⟨rfl, rfl, rfl⟩

/-- As many bytes are there, and behind them the cursor stops. -/
theorem reads_bytes {n : Nat} {bs : List UInt8} :
    Reads (bytes n) c bs c' ↔
      bs.length = n ∧ c.rest = bs ++ c'.rest ∧ c'.offset = c.offset + n := by
  obtain ⟨offset, rest⟩ := c
  obtain ⟨offset', rest'⟩ := c'
  simp only [Reads, bytes, Cursor.remaining, Cursor.advance]
  by_cases hn : n ≤ rest.length
  · simp only [hn, ↓reduceIte, Except.ok.injEq, Cursor.mk.injEq]
    constructor
    · rintro ⟨rfl, rfl, rfl⟩
      exact ⟨List.length_take_of_le hn, (List.take_append_drop n rest).symm, rfl⟩
    · rintro ⟨rfl, rfl, rfl⟩
      simp
  · simp only [hn, ↓reduceIte, underflow, reduceCtorEq, false_and, false_iff, not_and]
    rintro rfl rfl
    simp at hn

theorem foldl_map (step : β → α → Reader ε β) (g : γ → α) (xs : List γ) (b : β) :
    foldl step (xs.map g) b = foldl (fun b x => step b (g x)) xs b := by
  induction xs generalizing b with
  | nil => rfl
  | cons x xs ih => simp only [List.map_cons, foldl, ih]

theorem foldl_congr {step step' : β → α → Reader ε β} {xs : List α}
    (h : ∀ x ∈ xs, ∀ b, step' b x = step b x) (b : β) : foldl step' xs b = foldl step xs b := by
  induction xs generalizing b with
  | nil => rfl
  | cons x xs ih =>
    obtain ⟨hx, hxs⟩ := List.forall_mem_cons.mp h
    simp only [foldl, hx b, ih hxs]

theorem reads_times {n : Nat} {as : List α} (h : Reads (m.times n) c as c') :
    as.length = n ∧ ∀ a ∈ as, Answers m a := by
  induction n generalizing c c' as with
  | zero =>
    obtain ⟨rfl, -⟩ := reads_pure.mp h
    simp
  | succ n ih =>
    obtain ⟨a, c₁, ha, h⟩ := reads_bind.mp h
    obtain ⟨rest, c₂, hrest, h⟩ := reads_bind.mp h
    obtain ⟨rfl, -⟩ := reads_pure.mp h
    obtain ⟨hlength, hall⟩ := ih hrest
    exact ⟨by rw [List.length_cons, hlength], List.forall_mem_cons.mpr ⟨⟨c, c₁, ha⟩, hall⟩⟩

/-! ### Errors that are never met -/

/-- Nowhere does `m` fail with this error. -/
def Avoids (e : ε) (m : Reader ε α) : Prop := ∀ c, ¬ Fails m c e

namespace Avoids

variable {e : ε}

theorem pure (a : α) : Avoids e (pure a : Reader ε α) := fun _ => not_fails_pure

theorem fail {e' : ε} (h : e' ≠ e) : Avoids e (fail e' : Reader ε α) := fun _ => by simpa using h

theorem note (n : Note) : Avoids e (note n) := fun _ => not_fails_note

theorem cursor : Avoids e cursor := fun _ => not_fails_cursor

theorem bind (h : Avoids e m) (hf : ∀ a, Avoids e (f a)) : Avoids e (m >>= f) := by
  intro c hfails
  rcases fails_bind.mp hfails with hm | ⟨a, c', -, ha⟩
  · exact h c hm
  · exact hf a c' ha

theorem mapError {g : ε' → ε} (hg : ∀ e', g e' ≠ e) (m : Reader ε' α) :
    Avoids e (m.mapError g) := by
  intro c hfails
  obtain ⟨e', -, he⟩ := fails_mapError.mp hfails
  exact hg e' he

end Avoids

/-! ### Bytes that are taken whatever follows -/

/-- At `bs`, wherever they begin and whatever follows them, `m` answers `a` and stops behind
them. -/
def Takes (m : Reader ε α) (bs : List UInt8) (a : α) : Prop :=
  ∀ offset rest, Reads m ⟨offset, bs ++ rest⟩ a ⟨offset + bs.length, rest⟩

namespace Takes

theorem pure (a : α) : Takes (pure a : Reader ε α) [] a := fun _ _ => by simp

theorem note (n : Note) : Takes (note n : Reader ε Unit) [] () := fun _ _ => by simp

theorem bind {bs bs' : List UInt8} {a : α} {b : β} (h : Takes m bs a) (h' : Takes (f a) bs' b) :
    Takes (m >>= f) (bs ++ bs') b := by
  intro offset rest
  refine reads_bind.mpr ⟨a, _, by simpa using h offset (bs' ++ rest), ?_⟩
  simpa [Nat.add_assoc] using h' (offset + bs.length) rest

theorem map {bs : List UInt8} {a : α} {b : β} (h : Takes m bs a) (h' : Takes (f a) [] b) :
    Takes (m >>= f) bs b := by
  simpa using h.bind h'

theorem note_pure (n : Note) (a : α) : Takes (do Reader.note n; return a : Reader ε α) [] a :=
  (note n).map (pure a)

theorem mapError {g : ε → ε'} {bs : List UInt8} {a : α} (h : Takes m bs a) :
    Takes (m.mapError g) bs a := fun offset rest => reads_mapError.mpr (h offset rest)

theorem byte (b : UInt8) : Takes byte [b] b := fun _ _ => reads_byte.mpr ⟨rfl, rfl⟩

theorem byte_bind {f : UInt8 → Reader BufferError α} {b : UInt8} {bs : List UInt8} {a : α}
    (h : Takes (f b) bs a) : Takes (Reader.byte >>= f) (b :: bs) a := (byte b).bind h

theorem bytes (bs : List UInt8) : Takes (bytes bs.length) bs bs :=
  fun _ _ => reads_bytes.mpr ⟨rfl, rfl, rfl⟩

theorem times {encode : γ → List UInt8} {decode : γ → α} {xs : List γ}
    (h : ∀ x ∈ xs, Takes m (encode x) (decode x)) :
    Takes (m.times xs.length) (xs.flatMap encode) (xs.map decode) := by
  induction xs with
  | nil => exact Takes.pure []
  | cons x xs ih =>
    have hx := h x List.mem_cons_self
    have hxs := ih fun y hy => h y (List.mem_cons_of_mem x hy)
    exact hx.bind (hxs.map (Takes.pure _))

end Takes

/-! ### Bytes that are taken under a condition -/

/-- At `bs`, `m` takes them for `a` if `p` holds, and fails with an error of `E` if not. -/
structure Settles (E : ε → Prop) (m : Reader ε α) (bs : List UInt8) (p : Prop) (a : α) : Prop where
  takes : p → Takes m bs a
  fails : ¬ p → ∀ offset rest, ∃ e, E e ∧ Fails m ⟨offset, bs ++ rest⟩ e

namespace Settles

variable {E : ε → Prop} {p q : Prop} {bs bs' : List UInt8} {a : α} {b : β}

theorem of_takes (h : Takes m bs a) : Settles E m bs True a :=
  ⟨fun _ => h, fun hp => absurd trivial hp⟩

theorem congr (h : Settles E m bs p a) (hpq : p ↔ q) : Settles E m bs q a :=
  ⟨fun hq => h.takes (hpq.mpr hq), fun hq => h.fails fun hp => hq (hpq.mp hp)⟩

/-- Both steps have to be possible. -/
theorem bind (h : Settles E m bs p a) (h' : Settles E (f a) bs' q b) :
    Settles E (m >>= f) (bs ++ bs') (p ∧ q) b where
  takes hpq := (h.takes hpq.1).bind (h'.takes hpq.2)
  fails hpq offset rest := by
    by_cases hp : p
    · obtain ⟨e, he, hf⟩ := h'.fails (fun hq => hpq ⟨hp, hq⟩) (offset + bs.length) rest
      have hm := h.takes hp offset (bs' ++ rest)
      exact ⟨e, he, fails_bind.mpr (.inr ⟨a, _, by simpa using hm, hf⟩)⟩
    · obtain ⟨e, he, hf⟩ := h.fails hp offset (bs' ++ rest)
      exact ⟨e, he, fails_bind.mpr (.inl (by simpa using hf))⟩

theorem map (h : Settles E m bs p a) (h' : Takes (f a) [] b) : Settles E (m >>= f) bs p b := by
  simpa using (h.bind (of_takes h')).congr (by simp)

/-- A sequence whose first step always succeeds. -/
theorem bind_takes (h : Takes m bs a) (h' : Settles E (f a) bs' q b) :
    Settles E (m >>= f) (bs ++ bs') q b :=
  ((of_takes h).bind h').congr (by simp)

theorem times {encode : γ → List UInt8} {decode : γ → α} {fits : γ → Prop} {xs : List γ}
    (h : ∀ x ∈ xs, Settles E m (encode x) (fits x) (decode x)) :
    Settles E (m.times xs.length) (xs.flatMap encode) (∀ x ∈ xs, fits x) (xs.map decode) := by
  induction xs with
  | nil => exact (of_takes (Takes.pure [])).congr (by simp)
  | cons x xs ih =>
    have hx := h x List.mem_cons_self
    have hxs := ih fun y hy => h y (List.mem_cons_of_mem x hy)
    have hall : Settles E (m.times (x :: xs).length) ((x :: xs).flatMap encode)
        (fits x ∧ ∀ y ∈ xs, fits y) ((x :: xs).map decode) := hx.bind (hxs.map (Takes.pure _))
    exact hall.congr (by simp)

/-- A reader that looks at the cursor, and settles for every cursor with the bytes ahead. -/
theorem cursor {f : Cursor → Reader ε α}
    (h : ∀ c, bs.length ≤ c.remaining → Settles E (f c) bs p a) :
    Settles E (Reader.cursor >>= f) bs p a where
  takes hp offset rest := by
    have hc := (h ⟨offset, bs ++ rest⟩ (by simp [Cursor.remaining])).takes hp offset rest
    exact reads_bind.mpr ⟨_, _, reads_cursor.mpr ⟨rfl, rfl⟩, hc⟩
  fails hp offset rest := by
    obtain ⟨e, he, hf⟩ := (h ⟨offset, bs ++ rest⟩ (by simp [Cursor.remaining])).fails hp offset rest
    exact ⟨e, he, fails_bind.mpr (.inr ⟨_, _, reads_cursor.mpr ⟨rfl, rfl⟩, hf⟩)⟩

/-- Reading once for each member of a list accumulates what each of them is read as. -/
theorem foldl {step : β → γ → Reader ε β} {encode : γ → List UInt8} {fits : γ → Prop}
    {add : β → γ → β} {xs : List γ}
    (h : ∀ x ∈ xs, ∀ b, Settles E (step b x) (encode x) (fits x) (add b x)) (b : β) :
    Settles E (Reader.foldl step xs b) (xs.flatMap encode) (∀ x ∈ xs, fits x) (xs.foldl add b) := by
  induction xs generalizing b with
  | nil => exact (of_takes (Takes.pure b)).congr (by simp)
  | cons x xs ih =>
    have hx := h x List.mem_cons_self b
    have hxs := ih (fun y hy => h y (List.mem_cons_of_mem x hy)) (add b x)
    have hall : Settles E (Reader.foldl step (x :: xs) b) ((x :: xs).flatMap encode)
        (fits x ∧ ∀ y ∈ xs, fits y) ((x :: xs).foldl add b) := hx.bind hxs
    exact hall.congr (by simp)

end Settles

end WireSchema.Reader
