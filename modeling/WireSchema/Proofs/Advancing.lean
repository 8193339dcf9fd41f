import WireSchema.Proofs.Primitive

/-! Properties that a sequence of readers has if its steps have them, and one of them: that a
reader, however it ends, leaves the cursor where it was or further on, among the bytes that were
left. All primitives have it. -/

namespace WireSchema

namespace Cursor

theorem advance_advance (c : Cursor) (m n : Nat) : (c.advance m).advance n = c.advance (m + n) := by
  simp [advance, Nat.add_assoc]

@[simp] theorem remaining_advance (c : Cursor) (n : Nat) :
    (c.advance n).remaining = c.remaining - n :=
  List.length_drop

end Cursor

namespace Reader

variable {ε ε' α β γ : Type} {m : Reader ε α} {f : α → Reader ε β}

theorem cursor_bind_of_fails {c : Cursor} {e : ε} (h : Fails m c e) :
    ((m >>= f) c).cursor = (m c).cursor := by
  rw [bind_eq, show (m c).result = .error e from h]

theorem cursor_bind_of_reads {c c' : Cursor} {a : α} (h : Reads m c a c') :
    ((m >>= f) c).cursor = (f a c').cursor := by
  obtain ⟨ha, rfl⟩ := h
  rw [bind_eq, ha]

/-- What holds of readers that read nothing and passes from the steps of a sequence to the
sequence. -/
structure Compositional (P : ∀ {α : Type}, Reader ε α → Prop) : Prop where
  pure : ∀ {α : Type} (a : α), P (pure a)
  note : ∀ n : Note, P (note n)
  cursor : P cursor
  bind : ∀ {α β : Type} {m : Reader ε α} {f : α → Reader ε β}, P m → (∀ a, P (f a)) → P (m >>= f)

namespace Compositional

variable {P : ∀ {α : Type}, Reader ε α → Prop}

theorem map (hP : Compositional P) (h : P m) (g : α → β) : P (do return g (← m)) :=
  hP.bind h fun a => hP.pure (g a)

theorem times (hP : Compositional P) (h : P m) (n : Nat) : P (m.times n) := by
  induction n with
  | zero => exact hP.pure []
  | succ n ih => exact hP.bind h fun a => hP.bind ih fun as => hP.pure (a :: as)

theorem foldl (hP : Compositional P) {step : β → γ → Reader ε β} {xs : List γ}
    (h : ∀ x ∈ xs, ∀ b, P (step b x)) (b : β) : P (Reader.foldl step xs b) := by
  induction xs generalizing b with
  | nil => exact hP.pure b
  | cons x xs ih =>
    obtain ⟨hx, hxs⟩ := List.forall_mem_cons.mp h
    exact hP.bind (hx b) fun b => ih hxs b

end Compositional

theorem Avoids.compositional (e : ε) : Compositional (Avoids e) where
  pure := .pure
  note := .note
  cursor := .cursor
  bind := .bind

/-! ### Readers that move on -/

/-- Whether it succeeds or fails, `m` leaves the cursor further on by some of the bytes left, or by
none. -/
def Advances (m : Reader ε α) : Prop := ∀ c, ∃ n ≤ c.remaining, (m c).cursor = c.advance n

namespace Advances

theorem of_cursor_eq (h : ∀ c, (m c).cursor = c) : Advances m := fun c => ⟨0, Nat.zero_le _, h c⟩

theorem fail (e : ε) : Advances (fail e : Reader ε α) := of_cursor_eq fun _ => rfl

/-- The second step starts where the first one ended, with what was left there. -/
theorem bind (h : Advances m) (hf : ∀ a, Advances (f a)) : Advances (m >>= f) := by
  intro c
  obtain ⟨n, hn, hc⟩ := h c
  rw [bind_eq, hc]
  cases (m c).result with
  | error e => exact ⟨n, hn, rfl⟩
  | ok a =>
    obtain ⟨k, hk, hc'⟩ := hf a (c.advance n)
    rw [Cursor.remaining_advance] at hk
    exact ⟨n + k, by omega, hc'.trans (c.advance_advance n k)⟩

theorem compositional : Compositional (ε := ε) Advances where
  pure _ := of_cursor_eq fun _ => rfl
  note _ := of_cursor_eq fun _ => rfl
  cursor := of_cursor_eq fun _ => rfl
  bind := bind

theorem map (h : Advances m) (g : α → β) : Advances (do return g (← m)) := compositional.map h g

theorem mapError (g : ε → ε') (h : Advances m) : Advances (m.mapError g) := h

/-! ### Primitives -/

theorem byte : Advances byte := by
  intro c
  unfold Reader.byte
  split
  · exact ⟨0, Nat.zero_le _, rfl⟩
  · rename_i b rest hrest
    exact ⟨1, by simp [Cursor.remaining, hrest], rfl⟩

theorem bytes (n : Nat) : Advances (bytes n) := by
  intro c
  unfold Reader.bytes
  split
  · exact ⟨n, ‹_›, rfl⟩
  · exact ⟨0, Nat.zero_le _, rfl⟩

theorem groups (k : Nat) : Advances (groups k) := by
  induction k with
  | zero => exact compositional.pure 0
  | succ k ih =>
    refine byte.bind fun b => ?_
    split
    · exact compositional.pure _
    · exact ih.map _

theorem uint : Advances uint := (groups 5).map _

theorem int : Advances int := uint.map _

theorem bool : Advances bool := by
  refine compositional.cursor.bind fun here => byte.bind fun b => ?_
  split
  · exact compositional.pure _
  · split
    · exact compositional.pure _
    · exact fail _

theorem float : Advances float := by
  refine byte.bind fun first => ?_
  split
  · exact compositional.pure _
  · exact (bytes 3).map _

/-- A text stops behind the zero byte; where there is none, it is not begun. -/
theorem string : Advances string := by
  intro c
  unfold Reader.string
  dsimp only
  split
  · exact ⟨_, ‹_›, rfl⟩
  · exact ⟨0, Nat.zero_le _, rfl⟩

end Advances

end Reader

end WireSchema
