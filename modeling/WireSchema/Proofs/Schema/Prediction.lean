import WireSchema.Proofs.Schema.Parsing

/-! The laws of blame. A step of parsing that fails blames a token, and it is `Predictive` if the
tokens before that one can go on to tokens that it parses, while together with that one they cannot.
There is one law for each way in which steps are put together. What may follow is said by a set of
token lists, and the laws for loops are about such sets alone: the number of rounds that a loop is
given bounds what it parses, but not what could have been written. -/

namespace WireSchema.Parser

variable {α β : Type} {stop : Position} {A B : List Token → Prop} {us ts ts' : List Token}
  {position : Position}

/-- The place of the next token; at the end, the place of the end. -/
def here (stop : Position) (ts : List Token) : Position := (ts.head?.getD ⟨"", stop⟩).position

/-- The place is that of the first of the tokens with which they no longer begin tokens of `A`. -/
def Blames (stop : Position) (A : List Token → Prop) (ts : List Token) (position : Position) :
    Prop :=
  ∃ us ts', ts = us ++ ts' ∧ position = here stop ts' ∧ (∃ vs, A (us ++ vs)) ∧
    ∀ ts'', ts''.head? = ts'.head? → ¬ A (us ++ ts'')

namespace Blames

theorem head (hviable : ∃ vs, A vs) (hnot : ∀ ts', ts'.head? = ts.head? → ¬ A ts') :
    Blames stop A ts (here stop ts) :=
  ⟨[], ts, rfl, rfl, hviable, hnot⟩

theorem append (h : Blames stop B ts position) (hA : ∀ ts, A (us ++ ts) ↔ B ts) :
    Blames stop A (us ++ ts) position := by
  obtain ⟨vs, ts', rfl, hposition, ⟨ws, hB⟩, hnot⟩ := h
  refine ⟨us ++ vs, ts', (List.append_assoc us vs ts').symm, hposition, ⟨ws, ?_⟩,
    fun ts'' hhead hA' => ?_⟩
  · rw [List.append_assoc]
    exact (hA _).mpr hB
  · rw [List.append_assoc] at hA'
    exact hnot ts'' hhead ((hA _).mp hA')

theorem congr (h : Blames stop B ts position) (hA : ∀ ts, A ts ↔ B ts) :
    Blames stop A ts position :=
  (h.append hA : Blames stop A ([] ++ ts) position)

/-- Sets that agree on what begins with the same token give the same blame. -/
theorem of_head (h : Blames stop B ts position) (hviable : ∃ vs, A vs)
    (hA : ∀ ts', ts'.head? = ts.head? → (A ts' ↔ B ts')) : Blames stop A ts position := by
  obtain ⟨us, ts', rfl, hposition, ⟨vs, hB⟩, hnot⟩ := h
  have hafter : ∀ ts'', ts''.head? = ts'.head? → ¬ A (us ++ ts'') := by
    intro ts'' hhead hA'
    refine hnot ts'' hhead ((hA _ ?_).mp hA')
    rw [List.head?_append, List.head?_append, hhead]
  refine ⟨us, ts', rfl, hposition, ?_, hafter⟩
  cases us with
  | nil => exact hviable
  | cons t us => exact ⟨vs, (hA (t :: us ++ vs) rfl).mpr hB⟩

end Blames

/-! ### Phrases

A phrase is a list of tokens that spells an item. -/

section Phrases

variable {G : α → List Token → Prop}

/-- Tokens that begin with a phrase. -/
def Opens (G : α → List Token → Prop) (ts : List Token) : Prop :=
  ∃ a us ts', G a us ∧ ts = us ++ ts'

/-- What follows a phrase is the same however the phrase is found. -/
def PrefixFree (G : α → List Token → Prop) : Prop :=
  ∀ ⦃a b us vs ts ts'⦄, G a us → G b vs → us ++ ts = vs ++ ts' → ts = ts'

/-- Blame inside a phrase: the tokens before the blamed one can be made a phrase, and with what
follows a phrase tokens of `A`. -/
theorem Blames.of_opens (h : Blames stop (Opens G) ts position)
    (hbefore : ∀ a us, G a us → ∃ vs, A (us ++ vs))
    (hafter : ∀ ts', ts'.head? = ts.head? → A ts' → Opens G ts') : Blames stop A ts position := by
  obtain ⟨us, ts', rfl, hposition, ⟨vs, a, us', ws, ha, hvs⟩, hnot⟩ := h
  refine ⟨us, ts', rfl, hposition, ?_, fun ts'' hhead hA => hnot ts'' hhead (hafter _ ?_ hA)⟩
  · rcases List.append_eq_append_iff.mp hvs with ⟨xs, rfl, -⟩ | ⟨xs, rfl, -⟩
    · obtain ⟨vs', hA⟩ := hbefore a _ ha
      exact ⟨xs ++ vs', by rwa [← List.append_assoc]⟩
    -- The phrase cannot end before the blamed token.
    · exact absurd ⟨a, us', xs ++ ts', ha, List.append_assoc us' xs ts'⟩ (hnot ts' rfl)
  · rw [List.head?_append, List.head?_append, hhead]

end Phrases

/-! ### Steps -/

/-- Tokens that a step parses, with others after them. -/
def Accepts (p : Parser α) (ts : List Token) : Prop := ∃ a ts', Parses p ts a ts'

/-- Some tokens are parsed, and failure blames the right token. -/
structure Predictive (stop : Position) (p : Parser α) : Prop where
  viable : ∃ ts, Accepts p ts
  blames : ∀ {ts e}, p ts = .error e → Blames stop (Accepts p) ts e.position

theorem bind_eq_error {p : Parser α} {f : α → Parser β} {e : ParseError} :
    (p >>= f) ts = .error e ↔
      p ts = .error e ∨ ∃ a ts', Parses p ts a ts' ∧ f a ts' = .error e := by
  show (p ts >>= fun r => f r.1 r.2) = .error e ↔ _
  rw [Except.bind_eq_error, Prod.exists]
  rfl

theorem bind_eq_of_parses {p : Parser α} {f : α → Parser β} {a : α} (h : Parses p ts a ts') :
    (p >>= f) ts = f a ts' := by
  show (p ts >>= fun r => f r.1 r.2) = f a ts'
  rw [h]
  rfl

theorem accepts_bind_iff {p : Parser α} {f : α → Parser β} {a : α} (h : Parses p ts a ts') :
    Accepts (p >>= f) ts ↔ Accepts (f a) ts' := by
  simp only [Accepts, Parses, bind_eq_of_parses h]

theorem accepts_bind_pure_iff {p : Parser α} {g : α → β} :
    Accepts (p >>= fun a => pure (g a)) ts ↔ Accepts p ts := by
  constructor
  · rintro ⟨b, ts', h⟩
    obtain ⟨a, us, ha, -⟩ := parses_bind.mp h
    exact ⟨a, us, ha⟩
  · rintro ⟨a, ts', ha⟩
    exact ⟨g a, ts', parses_bind.mpr ⟨a, ts', ha, parses_pure.mpr ⟨rfl, rfl⟩⟩⟩

theorem bind_pure_eq_error {p : Parser α} {g : α → β} {e : ParseError} :
    (p >>= fun a => pure (g a)) ts = .error e ↔ p ts = .error e := by
  rw [bind_eq_error]
  exact or_iff_left (by rintro ⟨a, ts', -, ⟨⟩⟩)

/-- The step parses phrases, no more and no less. -/
def Recognizes (p : Parser α) (G : α → List Token → Prop) : Prop :=
  ∀ {ts a ts'}, Parses p ts a ts' ↔ ∃ us, G a us ∧ ts = us ++ ts'

theorem Recognizes.accepts_iff {p : Parser α} {G : α → List Token → Prop} (h : Recognizes p G) :
    Accepts p ts ↔ Opens G ts := by
  constructor
  · rintro ⟨a, ts', hparses⟩
    obtain ⟨us, ha, rfl⟩ := h.mp hparses
    exact ⟨a, us, ts', ha, rfl⟩
  · rintro ⟨a, us, ts', ha, rfl⟩
    exact ⟨a, ts', h.mpr ⟨us, ha, rfl⟩⟩

theorem Recognizes.prefixFree {p : Parser α} {G : α → List Token → Prop} (h : Recognizes p G) :
    PrefixFree G := by
  intro a b us vs ts ts' ha hb heq
  have hleft : Parses p (vs ++ ts') a ts := h.mpr ⟨us, ha, heq.symm⟩
  have hright : Parses p (vs ++ ts') b ts' := h.mpr ⟨vs, hb, rfl⟩
  exact (Prod.mk.inj (Except.ok.inj (hleft.symm.trans hright))).2

theorem accepts_expect_bind_iff {what : Expected} {f : Token → Parser β} :
    Accepts (expect stop what >>= f) ts ↔
    ∃ t us, ts = t :: us ∧ Token.satisfies t.text what = true ∧ Accepts (f t) us := by
  constructor
  · rintro ⟨b, ts', h⟩
    obtain ⟨t, us, rfl, ht, h⟩ := parses_expect_bind.mp h
    exact ⟨t, us, rfl, ht, b, ts', h⟩
  · rintro ⟨t, us, rfl, ht, b, ts', h⟩
    exact ⟨b, ts', parses_expect_bind.mpr ⟨t, us, rfl, ht, h⟩⟩

/-- What a token is expected to be, some token is. -/
theorem exists_satisfies (what : Expected) : ∃ t : Token, Token.satisfies t.text what = true := by
  cases what with
  | identifier => exact ⟨⟨"a", .none⟩, by decide⟩
  | integer => exact ⟨⟨"0", .none⟩, by decide⟩
  | equals => exact ⟨⟨"=", .none⟩, by decide⟩
  | semicolon => exact ⟨⟨";", .none⟩, by decide⟩
  | openBrace => exact ⟨⟨"\x7b", .none⟩, by decide⟩
  | closeBracket => exact ⟨⟨"]", .none⟩, by decide⟩
  | deprecated => exact ⟨⟨"deprecated", .none⟩, by decide⟩

namespace Predictive

theorem pure (a : α) : Predictive stop (pure a : Parser α) :=
  ⟨⟨[], a, [], rfl⟩, nofun⟩

/-- A step that begins with a token of some sort, and goes on in a way that depends on that
token. -/
theorem of_first {p : Parser α} (good : Token → Prop) (hsample : ∃ t, good t)
    (hgood : ∀ t, good t → ∃ q, Predictive stop q ∧ ∀ ts, p (t :: ts) = q ts)
    (hbad : ∀ ts, (∀ t ∈ ts.head?, ¬ good t) → ∃ fault, p ts = .error ⟨fault, here stop ts⟩) :
    Predictive stop p := by
  have hnext : ∀ t, good t → ∃ q, Predictive stop q ∧ (∀ ts, p (t :: ts) = q ts) ∧
      ∀ ts, Accepts p ([t] ++ ts) ↔ Accepts q ts := fun t ht => by
    obtain ⟨q, hq, hpq⟩ := hgood t ht
    exact ⟨q, hq, hpq, fun ts => by simp only [Accepts, Parses, List.singleton_append, hpq]⟩
  obtain ⟨t, ht⟩ := hsample
  obtain ⟨q, hq, -, hacc⟩ := hnext t ht
  have hviable : ∃ vs, Accepts p vs := hq.viable.imp' _ fun ts hts => (hacc ts).mpr hts
  refine ⟨hviable, fun {ts e} he => ?_⟩
  by_cases hhead : ∃ t ∈ ts.head?, good t
  · obtain ⟨t, ht, hgood⟩ := hhead
    obtain ⟨ts, rfl⟩ := List.head?_eq_some_iff.mp ht
    obtain ⟨q, hq, hpq, hacc⟩ := hnext t hgood
    rw [hpq] at he
    exact (hq.blames he).append hacc
  · have hnot : ∀ t ∈ ts.head?, ¬ good t := fun t ht hg => hhead ⟨t, ht, hg⟩
    obtain ⟨fault, hfault⟩ := hbad ts hnot
    obtain rfl : (⟨fault, here stop ts⟩ : ParseError) = e := Except.error.inj (hfault.symm.trans he)
    refine .head hviable fun ts' hts' h => ?_
    obtain ⟨a, us, h⟩ := h
    obtain ⟨fault, hfault⟩ := hbad ts' (hts' ▸ hnot)
    cases h.symm.trans hfault

/-- A step that is bounded by the number of tokens, from what it parses and how it fails with as
many rounds as there are tokens. -/
theorem of_blames {p : List Token → Parser α} {g : α → β} (hA : ∀ ts, Accepts (p ts) ts ↔ A ts)
    (hviable : ∃ ts, A ts) (hblames : ∀ {ts e}, p ts ts = .error e → Blames stop A ts e.position) :
    Predictive stop (get >>= fun ts => p ts >>= fun a => Pure.pure (g a)) := by
  have haccepts : ∀ ts, Accepts (get >>= fun ts => p ts >>= fun a => Pure.pure (g a)) ts ↔ A ts :=
    fun ts => by
      rw [accepts_bind_iff (parses_get.mpr ⟨rfl, rfl⟩), accepts_bind_pure_iff, hA]
  refine ⟨hviable.imp fun ts hts => (haccepts ts).mpr hts, fun {ts e} he => ?_⟩
  rw [bind_eq_of_parses (parses_get.mpr ⟨rfl, rfl⟩), bind_pure_eq_error] at he
  exact (hblames he).congr haccepts

theorem expect_bind {what : Expected} {f : Token → Parser β}
    (hf : ∀ t, Token.satisfies t.text what = true → Predictive stop (f t)) :
    Predictive stop (expect stop what >>= f) := by
  refine of_first _ (exists_satisfies what) (fun t ht => ⟨f t, hf t ht, fun ts => ?_⟩)
    fun ts hnot => ?_
  · exact bind_eq_of_parses (parses_expect.mpr ⟨rfl, ht⟩)
  · cases ts with
    | nil => exact ⟨_, rfl⟩
    | cons t ts =>
      refine ⟨.expected what t.text, bind_eq_error.mpr (.inl ?_)⟩
      rw [expect_cons, if_neg (hnot t rfl)]
      rfl

theorem integer_bind {f : Int32 → Parser β} (hf : ∀ n, Predictive stop (f n)) :
    Predictive stop (integer stop >>= f) := by
  refine of_first (fun t => ∃ n, Token.isInteger t.text = true ∧ Token.int32? t.text = some n)
    ⟨⟨"0", .none⟩, 0, by decide, by decide⟩ (fun t ht => ?_) fun ts hnot => ?_
  · obtain ⟨n, ht, hn⟩ := ht
    exact ⟨f n, hf n, fun ts => bind_eq_of_parses (parses_integer.mpr ⟨t, rfl, ht, hn⟩)⟩
  · cases ts with
    | nil => exact ⟨_, rfl⟩
    | cons t ts =>
      by_cases ht : Token.isInteger t.text = true
      · have hparses : Parses (expect stop .integer) (t :: ts) t ts := parses_expect.mpr ⟨rfl, ht⟩
        refine ⟨.badInteger t.text, bind_eq_error.mpr (.inl ?_)⟩
        rw [integer, bind_eq_of_parses hparses]
        cases hn : Token.int32? t.text with
        | none => rfl
        | some n => exact absurd ⟨n, ht, hn⟩ (hnot t rfl)
      · refine ⟨.expected .integer t.text, bind_eq_error.mpr (.inl (bind_eq_error.mpr (.inl ?_)))⟩
        rw [expect_cons]
        exact if_neg ht

/-- A token that may stand there: both ways on have to be predictive. -/
theorem eat_bind {text : String} {f : Bool → Parser β} (htrue : Predictive stop (f true))
    (hfalse : Predictive stop (f false)) : Predictive stop (eat text >>= f) := by
  have hpassed : ∀ t : Token, t.text = text → ∀ ts, Accepts (eat text >>= f) ([t] ++ ts) ↔
      Accepts (f true) ts :=
    fun t ht ts => accepts_bind_iff (parses_eat.mpr (.inl ⟨rfl, t, rfl, ht⟩))
  have hleft : ∀ ts : List Token, (∀ t ∈ ts.head?, t.text ≠ text) → Parses (eat text) ts false ts :=
    fun ts hnot => parses_eat.mpr (.inr ⟨rfl, rfl, hnot⟩)
  obtain ⟨ts, hts⟩ := htrue.viable
  have hviable : ∃ vs, Accepts (eat text >>= f) vs := ⟨_, (hpassed ⟨text, .none⟩ rfl ts).mpr hts⟩
  refine ⟨hviable, fun {ts e} he => ?_⟩
  by_cases hhead : ∃ t ∈ ts.head?, t.text = text
  · obtain ⟨t, ht, htext⟩ := hhead
    obtain ⟨ts, rfl⟩ := List.head?_eq_some_iff.mp ht
    rw [bind_eq_of_parses (parses_eat.mpr (.inl ⟨rfl, t, rfl, htext⟩))] at he
    exact (htrue.blames he).append (hpassed t htext)
  · have hnot : ∀ t ∈ ts.head?, t.text ≠ text := fun t ht htext => hhead ⟨t, ht, htext⟩
    rw [bind_eq_of_parses (hleft ts hnot)] at he
    refine (hfalse.blames he).of_head hviable fun ts' hts' => ?_
    exact accepts_bind_iff (hleft ts' (hts' ▸ hnot))

/-- A look at the next token, at which `p` either stops or goes on. -/
theorem current_bind {p : Parser α} {g : Token → Parser α} (bad : Token → Prop)
    (hgood : ∀ t ts, ¬ bad t → g t ts = p ts)
    (hbad : ∀ t ts, bad t → ∃ fault, g t ts = .error ⟨fault, t.position⟩) (hp : Predictive stop p)
    (hviable : ∃ ts, ¬ bad (ts.head?.getD ⟨"", stop⟩) ∧ Accepts p ts) :
    Predictive stop (current stop >>= g) := by
  have hstep : ∀ ts, (current stop >>= g) ts = g (ts.head?.getD ⟨"", stop⟩) ts := fun ts =>
    bind_eq_of_parses (parses_current.mpr ⟨rfl, rfl⟩)
  have haccepts : ∀ ts : List Token, ¬ bad (ts.head?.getD ⟨"", stop⟩) →
      (Accepts (current stop >>= g) ts ↔ Accepts p ts) := fun ts hts => by
    simp only [Accepts, Parses, hstep, hgood _ _ hts]
  obtain ⟨vs, hvs, hacc⟩ := hviable
  have hviable : ∃ vs, Accepts (current stop >>= g) vs := ⟨vs, (haccepts vs hvs).mpr hacc⟩
  refine ⟨hviable, fun {ts e} he => ?_⟩
  rw [hstep] at he
  by_cases hts : bad (ts.head?.getD ⟨"", stop⟩)
  · obtain ⟨fault, hfault⟩ := hbad _ ts hts
    obtain rfl := Except.error.inj (hfault.symm.trans he)
    refine .head hviable fun ts' hts' h => ?_
    obtain ⟨a, us, h⟩ := h
    obtain ⟨fault, hfault⟩ := hbad _ ts' (hts' ▸ hts)
    rw [Parses, hstep, hfault] at h
    cases h
  · rw [hgood _ _ hts] at he
    exact (hp.blames he).of_head hviable fun ts' hts' => haccepts ts' (hts' ▸ hts)

end Predictive

theorem predictive_expect {what : Expected} : Predictive stop (expect stop what) := by
  rw [← bind_pure (expect stop what)]
  exact .expect_bind fun _ _ => .pure _

end WireSchema.Parser
