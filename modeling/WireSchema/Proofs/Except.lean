import Mathlib.Data.List.Forall2
import WireSchema.Note

/-! Sequences of steps that can fail, by their results: such a sequence succeeds when every step
does. -/

namespace WireSchema.Except

variable {ε α β : Type}

@[simp] theorem bind_eq_ok {x : Except ε α} {f : α → Except ε β} {b : β} :
    x >>= f = .ok b ↔ ∃ a, x = .ok a ∧ f a = .ok b := by
  cases x <;> simp [bind, Except.bind]

theorem bind_unit_eq_ok {x : Except ε Unit} {f : Unit → Except ε β} {b : β} :
    x >>= f = .ok b ↔ x = .ok () ∧ f () = .ok b := by
  rw [bind_eq_ok]
  exact ⟨fun ⟨(), h⟩ => h, fun h => ⟨(), h⟩⟩

@[simp] theorem pure_eq_ok {a b : α} : (pure a : Except ε α) = .ok b ↔ a = b := by
  simp [pure, Except.pure]

theorem bind_eq_error {x : Except ε α} {f : α → Except ε β} {e : ε} :
    x >>= f = .error e ↔ x = .error e ∨ ∃ a, x = .ok a ∧ f a = .error e := by
  cases x <;> simp [bind, Except.bind]

theorem pure_ne_error {a : α} {e : ε} : (pure a : Except ε α) ≠ .error e := nofun

@[simp] theorem map_eq_ok {x : Except ε α} {f : α → β} {b : β} :
    x.map f = .ok b ↔ ∃ a, x = .ok a ∧ f a = b := by
  cases x <;> simp [Except.map]

theorem mapError_eq_ok {ε' : Type} {x : Except ε α} {g : ε → ε'} {a : α} :
    x.mapError g = .ok a ↔ x = .ok a := by
  cases x <;> simp [Except.mapError]

/-- The results belong to the members of the list in order. -/
theorem mapM_eq_ok {f : α → Except ε β} {l : List α} {l' : List β} :
    l.mapM f = .ok l' ↔ List.Forall₂ (fun a b => f a = .ok b) l l' := by
  induction l generalizing l' with
  | nil =>
    rw [List.mapM_nil, pure_eq_ok, List.forall₂_nil_left_iff]
    exact eq_comm
  | cons a l ih =>
    simp only [List.mapM_cons, bind_eq_ok, pure_eq_ok, ih, List.forall₂_cons_left_iff]
    constructor
    · rintro ⟨b, hb, bs, hbs, rfl⟩
      exact ⟨b, bs, hb, hbs, rfl⟩
    · rintro ⟨b, bs, hb, hbs, rfl⟩
      exact ⟨b, hb, bs, hbs, rfl⟩

/-- A sequence fails as one of its steps does. -/
theorem exists_of_mapM_eq_error {f : α → Except ε β} {l : List α} {e : ε}
    (h : l.mapM f = .error e) : ∃ a ∈ l, f a = .error e := by
  induction l with
  | nil => exact absurd h pure_ne_error
  | cons a l ih =>
    rw [List.mapM_cons] at h
    rcases bind_eq_error.mp h with ha | ⟨b, -, h⟩
    · exact ⟨a, List.mem_cons_self, ha⟩
    · rcases bind_eq_error.mp h with hl | ⟨bs, -, h⟩
      · obtain ⟨a', ha', he⟩ := ih hl
        exact ⟨a', List.mem_cons_of_mem a ha', he⟩
      · exact absurd h pure_ne_error

theorem forM_eq_ok {f : α → Except ε Unit} {l : List α} :
    l.forM f = .ok () ↔ ∀ a ∈ l, f a = .ok () := by
  induction l with
  | nil => simp
  | cons a l ih =>
    rw [List.forall_mem_cons, ← ih]
    show f a >>= (fun _ => l.forM f) = _ ↔ _
    rw [bind_unit_eq_ok]

theorem exists_of_forM_eq_error {f : α → Except ε Unit} {l : List α} {e : ε}
    (h : l.forM f = .error e) : ∃ a ∈ l, f a = .error e := by
  induction l with
  | nil => exact absurd h pure_ne_error
  | cons a l ih =>
    rcases bind_eq_error.mp h with ha | ⟨-, -, hl⟩
    · exact ⟨a, List.mem_cons_self, ha⟩
    · obtain ⟨a', ha', he⟩ := ih hl
      exact ⟨a', List.mem_cons_of_mem a ha', he⟩

/-! ### Lists whose members belong together -/

section Forall₂

variable {γ : Type} {R : α → β → Prop} {l : List α} {l' : List β}

theorem map_eq_of_forall₂ {f : α → γ} {g : β → γ} (h : List.Forall₂ R l l')
    (hfg : ∀ {a b}, R a b → g b = f a) : l'.map g = l.map f := by
  induction h with
  | nil => rfl
  | cons hab _ ih => rw [List.map_cons, List.map_cons, hfg hab, ih]

/-- Two lists that belong to one, member by member, where one of two members gives the other. -/
theorem eq_map_of_forall₂ {S : α → γ → Prop} {l'' : List γ} {f : β → γ} (h : List.Forall₂ R l l')
    (h' : List.Forall₂ S l l'') (hf : ∀ a ∈ l, ∀ b c, R a b → S a c → c = f b) :
    l'' = l'.map f := by
  induction h generalizing l'' with
  | nil =>
    cases h'
    rfl
  | cons hab _ ih =>
    cases h' with
    | cons hac h' =>
      obtain ⟨hhead, htail⟩ := List.forall_mem_cons.mp hf
      rw [List.map_cons, hhead _ _ hab hac, ih h' htail]

theorem forall_mem_iff_of_forall₂ {p : α → Prop} {q : β → Prop} (h : List.Forall₂ R l l')
    (hpq : ∀ {a b}, R a b → (p a ↔ q b)) : (∀ a ∈ l, p a) ↔ ∀ b ∈ l', q b := by
  induction h with
  | nil => simp
  | cons hab _ ih => rw [List.forall_mem_cons, List.forall_mem_cons, hpq hab, ih]

theorem zipIdx_of_forall₂ (h : List.Forall₂ R l l') (n : Nat) :
    List.Forall₂ (fun p q => R p.1 q.1 ∧ p.2 = q.2) (l.zipIdx n) (l'.zipIdx n) := by
  induction h generalizing n with
  | nil => exact .nil
  | cons hab _ ih => exact .cons ⟨hab, rfl⟩ (ih (n + 1))

/-- What follows for members that belong together need follow for those in the lists only. -/
theorem forall₂_imp_of_mem {S : α → β → Prop} (h : List.Forall₂ R l l')
    (himp : ∀ a ∈ l, ∀ b ∈ l', R a b → S a b) : List.Forall₂ S l l' := by
  induction h with
  | nil => exact .nil
  | cons hab _ ih =>
    refine .cons (himp _ List.mem_cons_self _ List.mem_cons_self hab) (ih fun a ha b hb => ?_)
    exact himp a (List.mem_cons_of_mem _ ha) b (List.mem_cons_of_mem _ hb)

theorem exists_forall₂_iff : (∃ l' : List β, List.Forall₂ R l l') ↔ ∀ a ∈ l, ∃ b, R a b := by
  induction l with
  | nil => simp
  | cons a l ih =>
    rw [List.forall_mem_cons, ← ih]
    constructor
    · rintro ⟨_, _ | ⟨hab, h⟩⟩
      exact ⟨⟨_, hab⟩, _, h⟩
    · rintro ⟨⟨b, hab⟩, l', h⟩
      exact ⟨b :: l', .cons hab h⟩

theorem exists_of_forall₂ {b : β} (h : List.Forall₂ R l l') (hb : b ∈ l') : ∃ a ∈ l, R a b := by
  induction h with
  | nil => cases hb
  | cons hab _ ih =>
    rcases List.mem_cons.mp hb with rfl | hb
    · exact ⟨_, List.mem_cons_self, hab⟩
    · obtain ⟨a, ha, hab⟩ := ih hb
      exact ⟨a, List.mem_cons_of_mem _ ha, hab⟩

theorem forall₂_append_iff {l₁ l₂ : List α} : List.Forall₂ R (l₁ ++ l₂) l' ↔
    ∃ l₁' l₂', l' = l₁' ++ l₂' ∧ List.Forall₂ R l₁ l₁' ∧ List.Forall₂ R l₂ l₂' := by
  constructor
  · intro h
    refine ⟨l'.take l₁.length, l'.drop l₁.length, (List.take_append_drop _ _).symm, ?_, ?_⟩
    · simpa using List.forall₂_take l₁.length h
    · simpa using List.forall₂_drop l₁.length h
  · rintro ⟨l₁', l₂', rfl, h₁, h₂⟩
    exact List.rel_append h₁ h₂

/-- A member in the midst of a list may be replaced by one that belongs with the same members. -/
theorem forall₂_middle_iff {before after : List α} {a a' : α} (h : ∀ b, R a b ↔ R a' b) :
    List.Forall₂ R (before ++ a :: after) l' ↔ List.Forall₂ R (before ++ a' :: after) l' := by
  simp only [forall₂_append_iff, List.forall₂_cons_left_iff, h]

end Forall₂

end WireSchema.Except

namespace WireSchema.Noted

variable {ε ε' α β : Type}

@[simp] theorem result_ofExcept {x : Except ε α} : (ofExcept x).result = x := rfl

theorem result_bind_eq_ok {x : Noted ε α} {f : α → Noted ε β} {b : β} :
    (x >>= f).result = .ok b ↔ ∃ a, x.result = .ok a ∧ (f a).result = .ok b := by
  obtain ⟨result, notes⟩ := x
  cases result with
  | ok a =>
    show (f a).result = _ ↔ _
    simp
  | error e =>
    show Except.error e = _ ↔ _
    simp

theorem result_mapError_eq_ok {g : ε → ε'} {x : Noted ε α} {a : α} :
    (x.mapError g).result = .ok a ↔ x.result = .ok a :=
  Except.mapError_eq_ok

end WireSchema.Noted
