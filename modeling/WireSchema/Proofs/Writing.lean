import Mathlib.Data.List.Forall2
import WireSchema.Bytes.Writing

/-! The laws of writing: pieces in order succeed when each of them does, and then they have written
what each of them writes, in order. -/

namespace WireSchema.Writing

variable {ε α : Type} {a b : Writing ε}

/-- The writing ends well. -/
def Succeeds (w : Writing ε) : Prop := w.result = .ok ()

@[simp] theorem succeeds_empty : Succeeds (empty : Writing ε) := rfl

@[simp] theorem succeeds_bytes (bs : List UInt8) : Succeeds (bytes bs : Writing ε) := rfl

@[simp] theorem succeeds_note (n : Note) : Succeeds (note n : Writing ε) := rfl

@[simp] theorem not_succeeds_fail (e : ε) : ¬ Succeeds (fail e : Writing ε) := nofun

@[simp] theorem written_empty : (empty : Writing ε).written = [] := rfl

@[simp] theorem written_bytes (bs : List UInt8) : (bytes bs : Writing ε).written = bs := rfl

@[simp] theorem written_note (n : Note) : (note n : Writing ε).written = [] := rfl

theorem empty_append (w : Writing ε) : empty ++ w = w := rfl

theorem bytes_append_bytes (bs bs' : List UInt8) :
    (bytes bs ++ bytes bs' : Writing ε) = bytes (bs ++ bs') := rfl

/-- Pieces that are bytes and nothing else. -/
theorem concat_eq_bytes {ws : List (Writing ε)} {pieces : List (List UInt8)}
    (h : List.Forall₂ (fun w bs => w = bytes bs) ws pieces) : concat ws = bytes pieces.flatten := by
  induction h with
  | nil => rfl
  | cons hw _ ih => rw [concat, hw, ih, bytes_append_bytes, List.flatten_cons]

@[simp] theorem succeeds_append : Succeeds (a ++ b) ↔ Succeeds a ∧ Succeeds b := by
  show Succeeds (append a b) ↔ _
  unfold Succeeds append
  split <;> simp_all

theorem written_append (h : Succeeds a) : (a ++ b).written = a.written ++ b.written := by
  show (append a b).written = _
  unfold Succeeds at h
  rw [append, h]

@[simp] theorem succeeds_concat {ws : List (Writing ε)} :
    Succeeds (concat ws) ↔ ∀ w ∈ ws, Succeeds w := by
  induction ws with
  | nil => simp [concat]
  | cons w ws ih => simp [concat, ih]

theorem written_concat {ws : List (Writing ε)} (h : ∀ w ∈ ws, Succeeds w) :
    (concat ws).written = ws.flatMap written := by
  induction ws with
  | nil => rfl
  | cons w ws ih =>
    rw [concat, written_append (h w List.mem_cons_self), List.flatMap_cons,
      ih fun w' hw' => h w' (List.mem_cons_of_mem w hw')]

/-- The writing does not fail with this error. -/
def Avoids (e : ε) (w : Writing ε) : Prop := w.result ≠ .error e

@[simp] theorem avoids_empty (e : ε) : Avoids e empty := nofun

@[simp] theorem avoids_bytes (e : ε) (bs : List UInt8) : Avoids e (bytes bs) := nofun

@[simp] theorem avoids_note (e : ε) (n : Note) : Avoids e (note n) := nofun

@[simp] theorem avoids_fail_iff {e e' : ε} : Avoids e (fail e') ↔ e' ≠ e := by simp [Avoids, fail]

theorem Avoids.append {e : ε} (ha : Avoids e a) (hb : Avoids e b) : Avoids e (a ++ b) := by
  show (Writing.append a b).result ≠ _
  unfold Writing.append
  split
  · exact hb
  · rename_i h
    unfold Avoids at ha
    rwa [h] at ha

theorem avoids_concat {e : ε} {ws : List (Writing ε)} (h : ∀ w ∈ ws, Avoids e w) :
    Avoids e (concat ws) := by
  induction ws with
  | nil => exact avoids_empty e
  | cons w ws ih =>
    obtain ⟨hw, hws⟩ := List.forall_mem_cons.mp h
    exact hw.append (ih hws)

theorem toNoted_result_ne_error {e : ε} {w : Writing ε} (h : Avoids e w) :
    w.toNoted.result ≠ .error e := by
  unfold Avoids at h
  unfold toNoted
  cases hw : w.result <;> simp_all [Except.map]

theorem toNoted_result_eq_ok {w : Writing ε} {bs : List UInt8} :
    w.toNoted.result = .ok bs ↔ Succeeds w ∧ w.written = bs := by
  unfold Succeeds toNoted
  cases h : w.result <;> simp [Except.map]

/-- Both end well and have written the same, or neither ends well. -/
structure Agrees (a b : Writing ε) : Prop where
  succeeds : Succeeds a ↔ Succeeds b
  written : Succeeds a → a.written = b.written

namespace Agrees

variable {a' b' : Writing ε}

theorem refl (a : Writing ε) : Agrees a a := ⟨Iff.rfl, fun _ => rfl⟩

theorem of_not_succeeds (ha : ¬ Succeeds a) (hb : ¬ Succeeds b) : Agrees a b :=
  ⟨iff_of_false ha hb, fun h => absurd h ha⟩

theorem append (ha : Agrees a a') (hb : Agrees b b') : Agrees (a ++ b) (a' ++ b') where
  succeeds := by rw [succeeds_append, succeeds_append, ha.succeeds, hb.succeeds]
  written h := by
    obtain ⟨ha', hb'⟩ := succeeds_append.mp h
    rw [written_append ha', written_append (ha.succeeds.mp ha'), ha.written ha', hb.written hb']

theorem concat_map {f g : α → Writing ε} {l : List α} (h : ∀ x ∈ l, Agrees (f x) (g x)) :
    Agrees (concat (l.map f)) (concat (l.map g)) := by
  induction l with
  | nil => exact refl _
  | cons x l ih =>
    obtain ⟨hx, hl⟩ := List.forall_mem_cons.mp h
    exact hx.append (ih hl)

theorem toNoted_result_iff (h : Agrees a b) {bs : List UInt8} :
    a.toNoted.result = .ok bs ↔ b.toNoted.result = .ok bs := by
  rw [toNoted_result_eq_ok, toNoted_result_eq_ok]
  constructor
  · rintro ⟨ha, rfl⟩
    exact ⟨h.succeeds.mp ha, (h.written ha).symm⟩
  · rintro ⟨hb, rfl⟩
    have ha := h.succeeds.mpr hb
    exact ⟨ha, h.written ha⟩

end Agrees

end WireSchema.Writing
