import WireSchema.Schema.Parser

/-! Classes of characters. The characters of names are word characters; blanks and marks are neither
word characters nor digits, so that they end any name and any integer. -/

namespace WireSchema

namespace Text

/-- What holds of every number in some ranges holds of a number found in them. -/
theorem of_inRanges {n : Nat} {l : List (Nat × Nat)} {p : Nat → Prop}
    (h : ∀ r ∈ l, ∀ k < r.2 - r.1 + 1, p (r.1 + k)) (hn : inRanges n l = true) : p n := by
  induction l with
  | nil => cases hn
  | cons r l ih =>
    obtain ⟨low, high⟩ := r
    obtain ⟨hlow, hn⟩ := Bool.and_eq_true_iff.mp hn
    have hlow := of_decide_eq_true hlow
    rcases Bool.or_eq_true_iff.mp hn with hhigh | hn
    · have hhigh := of_decide_eq_true hhigh
      have := h _ List.mem_cons_self (n - low) (by dsimp only; omega)
      rwa [Nat.add_sub_cancel' hlow] at this
    · exact ih (fun r hr => h r (List.mem_cons_of_mem _ hr)) hn

/-- Whether the first ranges, in their order, hold all of the second. Each list is gone through
once. -/
def covers : List (Nat × Nat) → List (Nat × Nat) → Bool
  | [], inner => inner.isEmpty
  | r :: outer, inner =>
    inner.head?.all (r.1 ≤ ·.1) && covers outer (inner.dropWhile (·.2 ≤ r.2))

theorem inRanges_dropWhile {n high : Nat} {l : List (Nat × Nat)} (hhigh : high < n)
    (hn : inRanges n l = true) : inRanges n (l.dropWhile (·.2 ≤ high)) = true := by
  induction l with
  | nil => cases hn
  | cons r l ih =>
    rw [List.dropWhile_cons]
    split
    · rename_i hr
      have hr := of_decide_eq_true hr
      rcases Bool.or_eq_true_iff.mp (Bool.and_eq_true_iff.mp hn).2 with hle | hn
      · have hle := of_decide_eq_true hle
        omega
      · exact ih hn
    · exact hn

theorem inRanges_of_covers {n : Nat} {outer inner : List (Nat × Nat)}
    (h : covers outer inner = true) (hn : inRanges n inner = true) : inRanges n outer = true := by
  induction outer generalizing inner with
  | nil =>
    rw [List.isEmpty_iff.mp h] at hn
    cases hn
  | cons r outer ih =>
    obtain ⟨hhead, h⟩ := Bool.and_eq_true_iff.mp h
    have hlow : r.1 ≤ n := by
      cases inner with
      | nil => cases hn
      | cons s inner =>
        exact Nat.le_trans (of_decide_eq_true hhead)
          (of_decide_eq_true (Bool.and_eq_true_iff.mp hn).1)
    rw [inRanges]
    by_cases hhigh : n ≤ r.2
    · simp [hlow, hhigh]
    · simp [hlow, ih h (inRanges_dropWhile (Nat.lt_of_not_le hhigh) hn)]

/-- Characters at which a name or an integer ends. -/
def isBreak (c : Char) : Bool := !isWordChar c && !isDigit c

theorem isBreak_of_isBlank {c : Char} (h : isBlank c = true) : isBreak c = true :=
  of_inRanges (p := fun n => (!inRanges n wordRanges && !inRanges n digitRanges) = true)
    (by decide +kernel) h

theorem isWordChar_of_isDigit {c : Char} (h : isDigit c = true) : isWordChar c = true :=
  inRanges_of_covers (by decide +kernel) h

theorem isBreak_eq (c : Char) : isBreak c = !isWordChar c := by
  cases hword : isWordChar c with
  | true => simp [isBreak, hword]
  | false =>
    have hdigit : isDigit c = false := by
      rw [Bool.eq_false_iff]
      intro hdigit
      simp [isWordChar_of_isDigit hdigit] at hword
    simp [isBreak, hword, hdigit]

theorem isDigit_of_isDigit {c : Char} (h : c.isDigit = true) : isDigit c = true := by
  simp only [Char.isDigit, ge_iff_le, Bool.and_eq_true, decide_eq_true_eq,
    UInt32.le_iff_toNat_le] at h
  have hlow : 0x30 ≤ c.toNat := h.1
  have hhigh : c.toNat ≤ 0x39 := h.2
  simp [isDigit, digitRanges, inRanges, hlow, hhigh]

end Text

namespace Token

open Text

theorem of_isMark {c : Char} {p : Char → Bool}
    (hall : ['=', ';', '\x7b', '\x7d', '.', '[', ']'].all p = true) (h : isMark c = true) :
    p c = true :=
  List.all_eq_true.mp hall c (by simpa [isMark] using h)

theorem isBreak_of_isMark {c : Char} (h : isMark c = true) : isBreak c = true :=
  of_isMark (by decide) h

theorem isBlank_of_isMark {c : Char} (h : isMark c = true) : isBlank c = false := by
  simpa using of_isMark (p := fun c => !isBlank c) (by decide) h

theorem lt_of_isNameRest {c : Char} (h : isNameRest c = true) : c.toNat < 123 := by
  simp only [isNameRest, isNameStart, Bool.or_eq_true, Bool.and_eq_true, decide_eq_true_eq,
    beq_iff_eq, Char.le_def, UInt32.le_iff_toNat_le] at h
  show c.val.toNat < 123
  rcases h with ((h | h) | rfl) | h
  · have : 'Z'.val.toNat = 90 := rfl
    omega
  · have : 'z'.val.toNat = 122 := rfl
    omega
  · decide
  · have : '9'.val.toNat = 57 := rfl
    omega

/-- What holds of all characters of names is found by looking at the first 123 characters. -/
theorem of_isNameRest {c : Char} {p : Char → Prop}
    (hall : ∀ n < 123, isNameRest (Char.ofNat n) = true → p (Char.ofNat n))
    (h : isNameRest c = true) : p c := by
  have hc := hall c.toNat (lt_of_isNameRest h)
  rw [Char.ofNat_toNat] at hc
  exact hc h

theorem isWordChar_of_isNameRest {c : Char} (h : isNameRest c = true) : isWordChar c = true :=
  of_isNameRest (p := fun c => isWordChar c = true) (by decide) h

theorem isNameRest_eq_false_of_isBreak {c : Char} (h : isBreak c = true) :
    isNameRest c = false := by
  rw [Bool.eq_false_iff]
  intro hname
  simp [isBreak, isWordChar_of_isNameRest hname] at h

theorem isNameStart_eq_false_of_isBreak {c : Char} (h : isBreak c = true) :
    isNameStart c = false := by
  have := isNameRest_eq_false_of_isBreak h
  rw [isNameRest, Bool.or_eq_false_iff] at this
  exact this.1

/-- What begins a name begins nothing else. -/
theorem of_isNameStart {c : Char} (h : isNameStart c = true) :
    c ≠ '-' ∧ isDigit c = false ∧ isMark c = false := by
  have hall : ∀ n < 123, isNameRest (Char.ofNat n) = true → isNameStart (Char.ofNat n) = true →
      Char.ofNat n ≠ '-' ∧ isDigit (Char.ofNat n) = false ∧ isMark (Char.ofNat n) = false := by
    decide
  exact of_isNameRest (p := fun c => isNameStart c = true →
      c ≠ '-' ∧ isDigit c = false ∧ isMark c = false)
    hall (by simp [isNameRest, h]) h

end Token

end WireSchema
