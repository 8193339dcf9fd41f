import WireSchema.Proofs.Except
import WireSchema.Schema.Parser

/-! The laws of parsing. `Parses` says what a step of parsing answers and which tokens it leaves,
with one law for each way in which steps are put together and one for each step that looks at the
tokens itself. -/

namespace WireSchema.Parser

variable {α β : Type} {p : Parser α} {f : α → Parser β} {ts ts' ts'' : List Token}
  {stop : Position}

/-- From the tokens `ts`, `p` answers `a` and leaves `ts'`. -/
def Parses (p : Parser α) (ts : List Token) (a : α) (ts' : List Token) : Prop :=
  p ts = .ok (a, ts')

@[simp] theorem parses_pure {a b : α} :
    Parses (pure a : Parser α) ts b ts' ↔ a = b ∧ ts = ts' := by
  show Except.ok (a, ts) = Except.ok (b, ts') ↔ _
  rw [Except.ok.injEq, Prod.mk.injEq]

@[simp] theorem not_parses_fail {fault : ParseFault} {position : Position} {a : α} :
    ¬ Parses (fail fault position : Parser α) ts a ts' := by
  intro h
  cases h

@[simp] theorem parses_get {ts₀ : List Token} :
    Parses (get : Parser (List Token)) ts ts₀ ts' ↔ ts = ts₀ ∧ ts = ts' :=
  parses_pure (a := ts)

theorem parses_bind {b : β} :
    Parses (p >>= f) ts b ts'' ↔ ∃ a ts', Parses p ts a ts' ∧ Parses (f a) ts' b ts'' := by
  show (p ts >>= fun r => f r.1 r.2) = Except.ok (b, ts'') ↔ _
  rw [Except.bind_eq_ok, Prod.exists]
  rfl

/-- A step that fails under a condition, and then goes on. -/
theorem parses_unless {c : Prop} [Decidable c] {fault : ParseFault} {position : Position}
    {next : Unit → Parser α} {a : α} :
    Parses (if c then fail fault position >>= next else next ()) ts a ts' ↔
      ¬ c ∧ Parses (next ()) ts a ts' := by
  by_cases hc : c
  · rw [if_pos hc, parses_bind]
    simp [hc]
  · rw [if_neg hc]
    simp [hc]

/-! ### Tokens -/

theorem eat_cons {text : String} {t : Token} :
    eat text (t :: ts) = if t.text = text then .ok (true, ts) else .ok (false, t :: ts) := by
  by_cases ht : t.text = text
  · have hstep : eat text (t :: ts) = (if (t.text == text) = true then
        (do set ts; pure true) else pure false : Parser Bool) (t :: ts) := rfl
    rw [hstep, if_pos (beq_iff_eq.mpr ht), if_pos ht]
    rfl
  · have hstep : eat text (t :: ts) = (if (t.text == text) = true then
        (do set ts; pure true) else pure false : Parser Bool) (t :: ts) := rfl
    rw [hstep, if_neg (by simpa using ht), if_neg ht]
    rfl

theorem parses_eat {text : String} {b : Bool} :
    Parses (eat text) ts b ts' ↔ (b = true ∧ ∃ t, ts = t :: ts' ∧ t.text = text) ∨
      b = false ∧ ts = ts' ∧ ∀ t ∈ ts.head?, t.text ≠ text := by
  cases ts with
  | nil =>
    show Except.ok (false, []) = Except.ok (b, ts') ↔ _
    simp [eq_comm]
  | cons t rest =>
    rw [Parses, eat_cons]
    by_cases ht : t.text = text
    · rw [if_pos ht, Except.ok.injEq, Prod.mk.injEq]
      constructor
      · rintro ⟨rfl, rfl⟩
        exact .inl ⟨rfl, t, rfl, ht⟩
      · rintro (⟨rfl, t', hts, -⟩ | ⟨-, -, hne⟩)
        · exact ⟨rfl, (List.cons.inj hts).2⟩
        · exact absurd ht (hne t rfl)
    · rw [if_neg ht, Except.ok.injEq, Prod.mk.injEq]
      constructor
      · rintro ⟨rfl, rfl⟩
        exact .inr ⟨rfl, rfl, fun t' ht' => Option.some.inj ht' ▸ ht⟩
      · rintro (⟨-, t', hts, ht'⟩ | ⟨rfl, rfl, -⟩)
        · exact absurd ht' ((List.cons.inj hts).1 ▸ ht)
        · exact ⟨rfl, rfl⟩

theorem expect_cons {what : Expected} {t : Token} : expect stop what (t :: ts) =
    if Token.satisfies t.text what = true then .ok (t, ts)
    else .error ⟨.expected what t.text, t.position⟩ := by
  have hstep : expect stop what (t :: ts) =
      (if Token.satisfies t.text what = true then (do set ts; pure t)
        else fail (.expected what t.text) t.position : Parser Token) (t :: ts) := rfl
  rw [hstep]
  split <;> rfl

theorem parses_expect {what : Expected} {t : Token} :
    Parses (expect stop what) ts t ts' ↔ ts = t :: ts' ∧ Token.satisfies t.text what = true := by
  cases ts with
  | nil =>
    refine iff_of_false (fun h => ?_) (by simp)
    cases h
  | cons t' rest =>
    rw [Parses, expect_cons]
    split
    · rename_i ht
      simp only [Except.ok.injEq, Prod.mk.injEq, List.cons.injEq]
      constructor
      · rintro ⟨rfl, rfl⟩
        exact ⟨⟨rfl, rfl⟩, ht⟩
      · exact fun h => h.1
    · rename_i ht
      simp only [reduceCtorEq, List.cons.injEq, false_iff, not_and]
      rintro ⟨rfl, -⟩ h
      exact ht h

theorem parses_current {t : Token} :
    Parses (current stop) ts t ts' ↔ ts.head?.getD ⟨"", stop⟩ = t ∧ ts = ts' :=
  parses_pure (a := ts.head?.getD ⟨"", stop⟩)

theorem parses_integer {n : Int32} :
    Parses (integer stop) ts n ts' ↔ ∃ t, ts = t :: ts' ∧ Token.isInteger t.text = true ∧
      Token.int32? t.text = some n := by
  rw [integer, parses_bind]
  constructor
  · rintro ⟨t, ts₁, ht, h⟩
    obtain ⟨rfl, hinteger⟩ := parses_expect.mp ht
    cases hn : Token.int32? t.text with
    | none =>
      rw [hn] at h
      exact absurd h not_parses_fail
    | some m =>
      rw [hn] at h
      obtain ⟨rfl, rfl⟩ := parses_pure.mp h
      exact ⟨t, rfl, hinteger, hn⟩
  · rintro ⟨t, rfl, ht, hn⟩
    refine ⟨t, ts', parses_expect.mpr ⟨rfl, ht⟩, ?_⟩
    rw [hn]
    exact parses_pure.mpr ⟨rfl, rfl⟩

/-! ### Tokens passed on the way -/

section Bind

variable {a : α} {g : Token → Parser α}

theorem parses_get_bind {f : List Token → Parser α} :
    Parses (get >>= f) ts a ts' ↔ Parses (f ts) ts a ts' := by
  rw [parses_bind]
  constructor
  · rintro ⟨us, us', hget, h⟩
    obtain ⟨rfl, rfl⟩ := parses_get.mp hget
    exact h
  · exact fun h => ⟨ts, ts, parses_get.mpr ⟨rfl, rfl⟩, h⟩

theorem parses_current_bind : Parses (current stop >>= g) ts a ts' ↔
    Parses (g (ts.head?.getD ⟨"", stop⟩)) ts a ts' := by
  rw [parses_bind]
  constructor
  · rintro ⟨t, us, hcurrent, h⟩
    obtain ⟨rfl, rfl⟩ := parses_current.mp hcurrent
    exact h
  · exact fun h => ⟨_, ts, parses_current.mpr ⟨rfl, rfl⟩, h⟩

theorem parses_expect_bind {what : Expected} : Parses (expect stop what >>= g) ts a ts' ↔
    ∃ t us, ts = t :: us ∧ Token.satisfies t.text what = true ∧ Parses (g t) us a ts' := by
  rw [parses_bind]
  constructor
  · rintro ⟨t, us, hexpect, h⟩
    obtain ⟨hts, ht⟩ := parses_expect.mp hexpect
    exact ⟨t, us, hts, ht, h⟩
  · rintro ⟨t, us, hts, ht, h⟩
    exact ⟨t, us, parses_expect.mpr ⟨hts, ht⟩, h⟩

theorem parses_integer_bind {f : Int32 → Parser α} : Parses (integer stop >>= f) ts a ts' ↔
    ∃ t us n, ts = t :: us ∧ (Token.isInteger t.text = true ∧ Token.int32? t.text = some n) ∧
      Parses (f n) us a ts' := by
  rw [parses_bind]
  constructor
  · rintro ⟨n, us, hinteger, h⟩
    obtain ⟨t, hts, ht⟩ := parses_integer.mp hinteger
    exact ⟨t, us, n, hts, ht, h⟩
  · rintro ⟨t, us, n, hts, ht, h⟩
    exact ⟨n, us, parses_integer.mpr ⟨t, hts, ht⟩, h⟩

theorem parses_eat_bind {text : String} {f : Bool → Parser α} : Parses (eat text >>= f) ts a ts' ↔
    (∃ t us, ts = t :: us ∧ t.text = text ∧ Parses (f true) us a ts') ∨
      (∀ t ∈ ts.head?, t.text ≠ text) ∧ Parses (f false) ts a ts' := by
  rw [parses_bind]
  constructor
  · rintro ⟨b, us, heat, h⟩
    rcases parses_eat.mp heat with ⟨rfl, t, hts, ht⟩ | ⟨rfl, rfl, hnot⟩
    · exact .inl ⟨t, us, hts, ht, h⟩
    · exact .inr ⟨hnot, h⟩
  · rintro (⟨t, us, hts, ht, h⟩ | ⟨hnot, h⟩)
    · exact ⟨true, us, parses_eat.mpr (.inl ⟨rfl, t, hts, ht⟩), h⟩
    · exact ⟨false, ts, parses_eat.mpr (.inr ⟨rfl, rfl, hnot⟩), h⟩

end Bind

/-- The schema of a token list is parsed from the tokens before its end. -/
theorem parses_of_ofTokens {tokens : List Token} {s : Schema} (h : Schema.ofTokens tokens = .ok s) :
    ∃ stop ts', Parses (schema stop) (tokens.takeWhile (!Token.isEnd ·)) s ts' := by
  rw [Schema.ofTokens] at h
  split at h
  · rename_i last stop _ _
    split at h
    · obtain ⟨⟨s', ts'⟩, hrun, rfl⟩ := Except.map_eq_ok.mp h
      exact ⟨stop.position, ts', hrun⟩
    · simp at h
  · simp at h

end WireSchema.Parser
