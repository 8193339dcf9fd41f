import Mathlib.Data.List.Forall2
import WireSchema.Proofs.Reader

/-! Two readers side by side at the same bytes. `Mirrors` says that the second follows the first: it
stops where the first stops, with an answer that belongs to its answer, and fails where the first
fails with an error that has a counterpart. There is one law for each way in which readers are put
together, so that two readers of one form are compared part by part. -/

namespace WireSchema.Reader

variable {ε ε' α α' β β' γ : Type} {F : ε → ε' → Prop} {P : α → α' → Prop} {Q : β → β' → Prop}
  {m : Reader ε α} {m' : Reader ε' α'} {f : α → Reader ε β} {f' : α' → Reader ε' β'}
  {a : α} {a' : α'}

/-- Wherever `m` answers, `m'` answers what belongs to it by `P` and stops at the same place, and
where `m` fails with an error that `F` gives a counterpart, `m'` fails with one. -/
structure Mirrors (F : ε → ε' → Prop) (P : α → α' → Prop) (m : Reader ε α) (m' : Reader ε' α') :
    Prop where
  reads : ∀ {c a c'}, Reads m c a c' → ∃ a', P a a' ∧ Reads m' c a' c'
  fails : ∀ {c e e'}, Fails m c e → F e e' → ∃ e', F e e' ∧ Fails m' c e'

namespace Mirrors

theorem of_takes (h : Takes m [] a) (h' : Takes m' [] a') (ha : P a a') : Mirrors F P m m' where
  reads {c b c'} hb := by
    obtain ⟨rfl, rfl⟩ := (h c.offset c.rest).unique hb
    exact ⟨a', ha, h' c.offset c.rest⟩
  fails {c e e'} he _ := absurd he (h c.offset c.rest).not_fails

theorem pure (ha : P a a') : Mirrors F P (pure a) (pure a') :=
  of_takes (Takes.pure a) (Takes.pure a') ha

/-- An error without a counterpart may be met by anything. -/
theorem of_fails {e : ε} (he : ∀ e', ¬ F e e') : Mirrors F P (fail e) m' where
  reads h := absurd h not_reads_fail
  fails h hF := absurd hF (fails_fail.mp h ▸ he _)

theorem fail {e : ε} {e' : ε'} (he : ∀ e₀, F e e₀ → F e e') : Mirrors F P (fail e) (fail e') where
  reads h := absurd h not_reads_fail
  fails h hF := by
    obtain rfl := fails_fail.mp h
    exact ⟨e', he _ hF, fails_fail.mpr rfl⟩

/-- A reader follows itself, if an error that has a counterpart is one. -/
theorem refl {F : ε → ε → Prop} (hF : ∀ e e', F e e' → F e e) (m : Reader ε α) :
    Mirrors F (fun a b => a = b) m m where
  reads {_ a _} ha := ⟨a, rfl, ha⟩
  fails {_ e _} he h := ⟨e, hF _ _ h, he⟩

theorem bind (h : Mirrors F P m m') (hf : ∀ a a', P a a' → Mirrors F Q (f a) (f' a')) :
    Mirrors F Q (m >>= f) (m' >>= f') where
  reads hb := by
    obtain ⟨a, c', ha, hb⟩ := reads_bind.mp hb
    obtain ⟨a', hP, ha'⟩ := h.reads ha
    obtain ⟨b', hQ, hb'⟩ := (hf a a' hP).reads hb
    exact ⟨b', hQ, reads_bind.mpr ⟨a', c', ha', hb'⟩⟩
  fails he hF := by
    rcases fails_bind.mp he with he | ⟨a, c', ha, he⟩
    · obtain ⟨e', hF, he'⟩ := h.fails he hF
      exact ⟨e', hF, fails_bind.mpr (.inl he')⟩
    · obtain ⟨a', hP, ha'⟩ := h.reads ha
      obtain ⟨e', hF, he'⟩ := (hf a a' hP).fails he hF
      exact ⟨e', hF, fails_bind.mpr (.inr ⟨a', c', ha', he'⟩)⟩

/-- The same reading, with its errors taken into two types. -/
theorem mapError {δ : Type} {g : δ → ε} {g' : δ → ε'} (hg : ∀ e e', F (g e) e' → F (g e) (g' e))
    (m : Reader δ α) : Mirrors F (fun a b => a = b) (m.mapError g) (m.mapError g') where
  reads {_ a _} ha := ⟨a, rfl, reads_mapError.mpr (reads_mapError.mp ha)⟩
  fails he hF := by
    obtain ⟨e, hm, rfl⟩ := fails_mapError.mp he
    exact ⟨g' e, hg _ _ hF, fails_mapError.mpr ⟨e, hm, rfl⟩⟩

theorem cursor : Mirrors F (fun a b => a = b) cursor cursor where
  reads {_ a _} ha := ⟨a, rfl, reads_cursor.mpr (reads_cursor.mp ha)⟩
  fails he _ := absurd he not_fails_cursor

theorem times (h : Mirrors F P m m') (n : Nat) :
    Mirrors F (List.Forall₂ P) (m.times n) (m'.times n) := by
  induction n with
  | zero => exact pure .nil
  | succ n ih => exact h.bind fun a a' ha => ih.bind fun as as' has => pure (.cons ha has)

theorem foldl {step : β → γ → Reader ε β} {step' : β' → γ → Reader ε' β'} {xs : List γ}
    (h : ∀ x ∈ xs, ∀ b b', Q b b' → Mirrors F Q (step b x) (step' b' x)) {b : β} {b' : β'}
    (hb : Q b b') : Mirrors F Q (foldl step xs b) (foldl step' xs b') := by
  induction xs generalizing b b' with
  | nil => exact pure hb
  | cons x xs ih =>
    obtain ⟨hx, hxs⟩ := List.forall_mem_cons.mp h
    exact (hx b b' hb).bind fun b b' hb => ih hxs hb

end Mirrors

end WireSchema.Reader
