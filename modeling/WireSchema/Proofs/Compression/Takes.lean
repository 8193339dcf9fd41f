import Mathlib.Algebra.Group.Nat.Defs

/-! Steps of decompression that take some bytes, whatever follows them. The state of the steps may
be the bytes that are left or something made of them, such as their bits. -/

namespace WireSchema.Decompression

variable {σ α β : Type} {state : List UInt8 → σ}

/-- A sequence goes on with its second step where the first one ended. -/
theorem run_bind {m : StateT σ Option α} {f : α → StateT σ Option β} {s s' : σ} {a : α}
    (h : m.run s = some (a, s')) : (m >>= f).run s = (f a).run s' := by
  rw [StateT.run_bind, h]
  rfl

/-- In the state of `bs` and any further bytes, `m` answers `a` and leaves the state of the further
bytes. -/
def Takes (state : List UInt8 → σ) (m : StateT σ Option α) (bs : List UInt8) (a : α) : Prop :=
  ∀ rest, m.run (state (bs ++ rest)) = some (a, state rest)

namespace Takes

variable {m : StateT σ Option α} {f : α → StateT σ Option β} {bs bs' : List UInt8} {a : α} {b : β}

theorem pure (a : α) : Takes state (Pure.pure a) [] a := fun _ => rfl

theorem bind (h : Takes state m bs a) (h' : Takes state (f a) bs' b) :
    Takes state (m >>= f) (bs ++ bs') b := by
  intro rest
  rw [List.append_assoc, run_bind (h (bs' ++ rest))]
  exact h' rest

theorem map (h : Takes state m bs a) (h' : Takes state (f a) [] b) :
    Takes state (m >>= f) bs b := by
  have hbind := h.bind h'
  rwa [List.append_nil] at hbind

/-- What a step answers when nothing follows. -/
theorem run'_eq (h : Takes state m bs a) : m.run' (state bs) = some a := by
  have hrun := h []
  rw [List.append_nil] at hrun
  show (fun p : α × σ => p.1) <$> m.run (state bs) = some a
  rw [hrun]
  rfl

end Takes

end WireSchema.Decompression
