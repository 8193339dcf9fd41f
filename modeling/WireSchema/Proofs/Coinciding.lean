import WireSchema.Proofs.Reader

/-! Readers that do the same at some bytes, though perhaps not at others. `Coincides` says that two
readers run alike at these bytes, notes and errors included, and that they stop behind them if they
answer. There is one law for each way in which readers are put together. -/

namespace WireSchema.Reader

variable {ε α β γ : Type} {m m' : Reader ε α} {f f' : α → Reader ε β} {bs bs' : List UInt8} {a : α}

/-- At `bs`, wherever they begin and whatever follows them, `m'` runs as `m` does, which stops
behind them if it answers. -/
structure Coincides (bs : List UInt8) (m m' : Reader ε α) : Prop where
  run : ∀ offset rest, m' ⟨offset, bs ++ rest⟩ = m ⟨offset, bs ++ rest⟩
  stops : ∀ {offset rest a c}, Reads m ⟨offset, bs ++ rest⟩ a c → c = ⟨offset + bs.length, rest⟩

namespace Coincides

theorem of_takes (h : Takes m bs a) : Coincides bs m m :=
  ⟨fun _ _ => rfl, fun ha => ((h _ _).unique ha).2.symm⟩

theorem pure (a : α) : Coincides [] (pure a : Reader ε α) (pure a) := of_takes (Takes.pure a)

theorem fail (e : ε) : Coincides bs (fail e : Reader ε α) (fail e) :=
  ⟨fun _ _ => rfl, fun ha => absurd ha not_reads_fail⟩

/-- The second steps need to coincide only for what the first one can answer. -/
theorem bind (h : Coincides bs m m')
    (hf : ∀ {offset rest a c}, Reads m ⟨offset, bs ++ rest⟩ a c → Coincides bs' (f a) (f' a)) :
    Coincides (bs ++ bs') (m >>= f) (m' >>= f') where
  run offset rest := by
    rw [List.append_assoc, bind_eq, bind_eq, h.run]
    cases ha : (m ⟨offset, bs ++ (bs' ++ rest)⟩).result with
    | error e => rfl
    | ok a =>
      have hreads : Reads m ⟨offset, bs ++ (bs' ++ rest)⟩ a _ := ⟨ha, rfl⟩
      have hnext := (hf hreads).run (offset + bs.length) rest
      simp only [h.stops hreads, hnext]
  stops hb := by
    rw [List.append_assoc] at hb
    obtain ⟨a, c, ha, hb⟩ := reads_bind.mp hb
    obtain rfl := h.stops ha
    rw [(hf ha).stops hb, List.length_append, Nat.add_assoc]

theorem bind_takes (h : Takes m bs a) (hf : Coincides bs' (f a) (f' a)) :
    Coincides (bs ++ bs') (m >>= f) (m >>= f') :=
  (of_takes h).bind fun hb => ((h _ _).unique hb).1 ▸ hf

theorem map (h : Coincides bs m m') (g : α → β) :
    Coincides bs (do return g (← m)) (do return g (← m')) := by
  have hbind : Coincides (bs ++ []) (do return g (← m)) (do return g (← m')) :=
    h.bind fun {_ _ a _} _ => pure (g a)
  rwa [List.append_nil] at hbind

/-- Readers that look at the cursor, and coincide for every cursor with the bytes ahead. -/
theorem cursor {f f' : Cursor → Reader ε α}
    (h : ∀ c, bs.length ≤ c.remaining → Coincides bs (f c) (f' c)) :
    Coincides bs (Reader.cursor >>= f) (Reader.cursor >>= f') := by
  have hlength : ∀ {offset rest}, bs.length ≤ Cursor.remaining ⟨offset, bs ++ rest⟩ := by
    simp [Cursor.remaining]
  constructor
  case run =>
    intro offset rest
    rw [bind_eq, bind_eq]
    simp only [Reader.cursor, (h _ hlength).run offset rest]
  case stops =>
    intro offset rest a c ha
    obtain ⟨_, _, hcursor, ha⟩ := reads_bind.mp ha
    obtain ⟨rfl, rfl⟩ := reads_cursor.mp hcursor
    exact (h _ hlength).stops ha

theorem times {encode : γ → List UInt8} {xs : List γ} (h : ∀ x ∈ xs, Coincides (encode x) m m') :
    Coincides (xs.flatMap encode) (m.times xs.length) (m'.times xs.length) := by
  induction xs with
  | nil => exact pure []
  | cons x xs ih =>
    obtain ⟨hx, hxs⟩ := List.forall_mem_cons.mp h
    exact hx.bind fun {_ _ a _} _ => (ih hxs).map (a :: ·)

theorem foldl {step step' : β → γ → Reader ε β} {encode : γ → List UInt8} {xs : List γ}
    (h : ∀ x ∈ xs, ∀ b, Coincides (encode x) (step b x) (step' b x)) (b : β) :
    Coincides (xs.flatMap encode) (Reader.foldl step xs b) (Reader.foldl step' xs b) := by
  induction xs generalizing b with
  | nil => exact pure b
  | cons x xs ih =>
    obtain ⟨hx, hxs⟩ := List.forall_mem_cons.mp h
    exact (hx b).bind fun {_ _ b _} _ => ih hxs b

end Coincides

end WireSchema.Reader
