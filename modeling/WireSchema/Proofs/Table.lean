import WireSchema.Table

/-! The laws of tables. What a table holds at a key is all there is to it: tables in ascending order
that hold the same at every key are the same list. Beside them stand the laws of the last place in a
list and of the first repeat. -/

namespace WireSchema

namespace Table

variable {κ α β : Type}

/-- The keys ascend, so that each is there once. -/
def Sorted [LT κ] (t : List (κ × α)) : Prop := t.Pairwise fun a b => a.1 < b.1

@[simp] theorem sorted_nil [LT κ] : Sorted ([] : List (κ × α)) := List.Pairwise.nil

section Lookup

variable [DecidableEq κ]

@[simp] theorem get?_nil (k : κ) : get? k ([] : List (κ × α)) = none := rfl

theorem get?_cons (k k' : κ) (a : α) (t : List (κ × α)) :
    get? k ((k', a) :: t) = if k = k' then some a else get? k t := by
  rw [get?, List.lookup_cons]
  by_cases h : k = k'
  · rw [if_pos h, beq_iff_eq.mpr h]
  · rw [if_neg h, beq_eq_false_iff_ne.mpr h]
    rfl

theorem mem_of_get? {k : κ} {a : α} {t : List (κ × α)} (h : get? k t = some a) : (k, a) ∈ t := by
  induction t with
  | nil => simp at h
  | cons p t ih =>
    obtain ⟨k', a'⟩ := p
    rw [get?_cons] at h
    split at h
    · rename_i hk
      obtain rfl : a' = a := by simpa using h
      rw [hk]
      exact List.mem_cons_self
    · exact List.mem_cons_of_mem _ (ih h)

theorem get?_eq_none_iff {k : κ} {t : List (κ × α)} : get? k t = none ↔ ∀ p ∈ t, p.1 ≠ k := by
  induction t with
  | nil => simp
  | cons p t ih =>
    obtain ⟨k', a⟩ := p
    rw [get?_cons]
    by_cases h : k = k'
    · simp [h]
    · simp [h, ih, Ne.symm h]

theorem get?_map_key (f : κ → α → β) (k : κ) (t : List (κ × α)) :
    get? k (t.map fun p => (p.1, f p.1 p.2)) = (get? k t).map (f k) := by
  induction t with
  | nil => rfl
  | cons p t ih =>
    rw [List.map_cons, get?_cons, get?_cons, ih]
    split
    · rename_i hk
      rw [hk, Option.map_some]
    · rfl

theorem get?_map (f : α → β) (k : κ) (t : List (κ × α)) :
    get? k (t.map fun p => (p.1, f p.2)) = (get? k t).map f := get?_map_key (fun _ => f) k t

theorem get?_filter (p : κ → Bool) (k : κ) (t : List (κ × α)) :
    get? k (t.filter fun q => p q.1) = if p k then get? k t else none := by
  induction t with
  | nil => simp
  | cons q t ih =>
    obtain ⟨k', a⟩ := q
    rw [List.filter_cons, get?_cons]
    by_cases hk : k = k'
    · subst hk
      cases hp : p k <;> simp_all [get?_cons]
    · cases hp : p k' <;> simp [hk, ih, get?_cons]

end Lookup

section Insert

variable [DecidableEq κ] [LT κ] [DecidableLT κ]

/-- What is put in is there, and nothing else has changed. -/
theorem get?_insert (k k' : κ) (a : α) (t : List (κ × α)) :
    get? k (insert k' a t) = if k = k' then some a else get? k t := by
  induction t with
  | nil => rw [insert, get?_cons]
  | cons p t ih =>
    obtain ⟨k'', b⟩ := p
    rw [insert]
    split
    · rw [get?_cons]
    · split
      · rename_i h
        obtain rfl : k' = k'' := eq_of_beq h
        rw [get?_cons, get?_cons]
        split <;> rfl
      · rename_i h
        have hne : k' ≠ k'' := by simpa using h
        rw [get?_cons, get?_cons, ih]
        by_cases hk : k = k''
        · rw [if_pos hk, if_pos hk, if_neg (hk ▸ hne.symm)]
        · rw [if_neg hk, if_neg hk]

theorem mem_insert {k : κ} {a : α} {p : κ × α} {t : List (κ × α)} (h : p ∈ insert k a t) :
    p = (k, a) ∨ p ∈ t := by
  induction t with
  | nil => simpa [insert] using h
  | cons q t ih =>
    obtain ⟨k', b⟩ := q
    rw [insert] at h
    split at h
    · simpa using h
    · split at h
      · rcases List.mem_cons.mp h with h | h
        · exact .inl h
        · exact .inr (List.mem_cons_of_mem _ h)
      · rcases List.mem_cons.mp h with h | h
        · exact .inr (h ▸ List.mem_cons_self)
        · exact (ih h).imp_right (List.mem_cons_of_mem _)

theorem mem_of_mem_ofPairs {pairs : List (κ × α)} {p : κ × α} (h : p ∈ ofPairs pairs) :
    p ∈ pairs := by
  suffices ∀ t : List (κ × α), p ∈ pairs.foldl (fun t p => insert p.1 p.2 t) t →
      p ∈ pairs ∨ p ∈ t by
    simpa using this [] h
  clear h
  induction pairs with
  | nil => exact fun t h => .inr h
  | cons q pairs ih =>
    intro t h
    rcases ih _ h with h | h
    · exact .inl (List.mem_cons_of_mem q h)
    · rcases mem_insert h with rfl | h
      · exact .inl List.mem_cons_self
      · exact .inr h

theorem isSome_get?_ofPairs {pairs : List (κ × α)} {k : κ} (h : k ∈ pairs.map Prod.fst) :
    (get? k (ofPairs pairs)).isSome = true := by
  suffices ∀ t : List (κ × α), k ∈ pairs.map Prod.fst ∨ (get? k t).isSome = true →
      (get? k (pairs.foldl (fun t p => insert p.1 p.2 t) t)).isSome = true from this [] (.inl h)
  clear h
  induction pairs with
  | nil => simp
  | cons q pairs ih =>
    intro t h
    apply ih _
    rw [get?_insert]
    by_cases hk : k = q.1
    · simp [hk]
    · simpa [hk] using h

end Insert

section Ordered

variable [DecidableEq κ] [LT κ] [LE κ] [Std.LawfulOrderLT κ]

theorem sorted_insert [Std.IsLinearOrder κ] [DecidableLT κ] {t : List (κ × α)} (h : Sorted t)
    (k : κ) (a : α) : Sorted (insert k a t) := by
  induction t with
  | nil => exact List.pairwise_singleton _ _
  | cons p t ih =>
    obtain ⟨k', b⟩ := p
    obtain ⟨hhead, htail⟩ := List.pairwise_cons.mp h
    rw [insert]
    split
    · rename_i hlt
      refine List.pairwise_cons.mpr ⟨fun q hq => ?_, h⟩
      rcases List.mem_cons.mp hq with rfl | hq
      · exact hlt
      · exact Std.lt_trans hlt (hhead q hq)
    · rename_i hlt
      split
      · rename_i heq
        obtain rfl : k = k' := eq_of_beq heq
        exact List.pairwise_cons.mpr ⟨hhead, htail⟩
      · rename_i hne
        have hgt : k' < k :=
          Std.lt_of_le_of_ne (Std.not_lt.mp hlt) fun h => hne (beq_iff_eq.mpr h.symm)
        refine List.pairwise_cons.mpr ⟨fun q hq => ?_, ih htail⟩
        rcases mem_insert hq with rfl | hq
        · exact hgt
        · exact hhead q hq

theorem get?_of_mem {k : κ} {a : α} {t : List (κ × α)} (ht : Sorted t) (h : (k, a) ∈ t) :
    get? k t = some a := by
  induction t with
  | nil => simp at h
  | cons p t ih =>
    obtain ⟨hhead, htail⟩ := List.pairwise_cons.mp ht
    rcases List.mem_cons.mp h with rfl | h
    · rw [get?_cons, if_pos rfl]
    · rw [get?_cons, if_neg (Std.ne_of_lt (hhead _ h)).symm, ih htail h]

/-- Tables that hold the same at every key are the same. -/
theorem ext [Std.IsLinearOrder κ] {t u : List (κ × α)} (ht : Sorted t) (hu : Sorted u)
    (h : ∀ k, get? k t = get? k u) : t = u := by
  induction t generalizing u with
  | nil =>
    cases u with
    | nil => rfl
    | cons q u =>
      have := h q.1
      rw [get?_nil, get?_cons, if_pos rfl] at this
      simp at this
  | cons p t ih =>
    cases u with
    | nil =>
      have := h p.1
      rw [get?_nil, get?_cons, if_pos rfl] at this
      simp at this
    | cons q u =>
      obtain ⟨hpt, ht'⟩ := List.pairwise_cons.mp ht
      obtain ⟨hqu, hu'⟩ := List.pairwise_cons.mp hu
      -- the least key of one table is a key of the other, so both begin with the same key
      have hp : p ∈ q :: u := by
        refine mem_of_get? (?_ : get? p.1 _ = some p.2)
        rw [← h, get?_cons, if_pos rfl]
      have hq : q ∈ p :: t := by
        refine mem_of_get? (?_ : get? q.1 _ = some q.2)
        rw [h, get?_cons, if_pos rfl]
      have hpq : p = q := by
        rcases List.mem_cons.mp hp with hp | hp
        · exact hp
        · rcases List.mem_cons.mp hq with hq | hq
          · exact hq.symm
          · exact absurd (Std.lt_trans (hpt q hq) (hqu p hp)) Std.lt_irrefl
      subst hpq
      refine congrArg (p :: ·) (ih ht' hu' fun k => ?_)
      by_cases hk : k = p.1
      · have hnone : ∀ {v : List (κ × α)}, (∀ r ∈ v, p.1 < r.1) → get? k v = none := fun hv =>
          get?_eq_none_iff.mpr fun r hr => hk ▸ (Std.ne_of_lt (hv r hr)).symm
        rw [hnone hpt, hnone hqu]
      · have := h k
        rwa [get?_cons, get?_cons, if_neg hk, if_neg hk] at this

theorem sorted_ofPairs [Std.IsLinearOrder κ] [DecidableLT κ] (pairs : List (κ × α)) :
    Sorted (ofPairs pairs) := by
  suffices ∀ t : List (κ × α), Sorted t →
      Sorted (pairs.foldl (fun t p => insert p.1 p.2 t) t) from this [] sorted_nil
  induction pairs with
  | nil => exact fun t ht => ht
  | cons p pairs ih => exact fun t ht => ih _ (sorted_insert ht _ _)

end Ordered

/-- The table of pairs whose keys differ holds just these pairs. -/
theorem get?_ofPairs_eq_some_iff [DecidableEq κ] [LT κ] [DecidableLT κ] {pairs : List (κ × α)}
    (h : (pairs.map Prod.fst).Nodup) {k : κ} {a : α} :
    get? k (ofPairs pairs) = some a ↔ (k, a) ∈ pairs := by
  suffices ∀ t : List (κ × α), get? k (pairs.foldl (fun t p => insert p.1 p.2 t) t) = some a ↔
      (k, a) ∈ pairs ∨ k ∉ pairs.map Prod.fst ∧ get? k t = some a by
    simpa [ofPairs] using this []
  induction pairs with
  | nil => simp
  | cons p pairs ih =>
    obtain ⟨k', a'⟩ := p
    obtain ⟨hk', hpairs⟩ := List.nodup_cons.mp h
    intro t
    rw [List.foldl_cons, ih hpairs, get?_insert, List.mem_cons, List.map_cons, List.mem_cons]
    by_cases hk : k = k'
    · subst hk
      have hmem : (k, a) ∉ pairs := fun hp => hk' (List.mem_map.mpr ⟨_, hp, rfl⟩)
      simp [hmem, hk', eq_comm]
    · simp [hk]

/-- However they are ordered, pairs whose keys differ make the same table. -/
theorem ofPairs_perm [DecidableEq κ] [LT κ] [LE κ] [Std.LawfulOrderLT κ] [Std.IsLinearOrder κ]
    [DecidableLT κ] {pairs pairs' : List (κ × α)} (h : pairs.Perm pairs')
    (hkeys : (pairs.map Prod.fst).Nodup) : ofPairs pairs = ofPairs pairs' := by
  refine ext (sorted_ofPairs _) (sorted_ofPairs _) fun k => Option.ext fun a => ?_
  rw [get?_ofPairs_eq_some_iff hkeys,
    get?_ofPairs_eq_some_iff ((h.map Prod.fst).nodup_iff.mp hkeys), h.mem_iff]

theorem get?_ofPairs_map_iff [DecidableEq κ] [LT κ] [DecidableLT κ] {γ : Type}
    {p : γ → κ} {q : γ → α} {l : List γ} (h : (l.map p).Nodup) {k : κ} {a : α} :
    get? k (ofPairs (l.map fun c => (p c, q c))) = some a ↔ ∃ c ∈ l, p c = k ∧ q c = a := by
  have hkeys : ((l.map fun c => (p c, q c)).map Prod.fst).Nodup := by rwa [List.map_map]
  rw [get?_ofPairs_eq_some_iff hkeys]
  simp

end Table

/-! ### The last place -/

section LastIndex

variable {α : Type} {p : α → Bool}

theorem lastIndex?_eq_none_iff {l : List α} : lastIndex? p l = none ↔ ∀ a ∈ l, p a = false := by
  induction l with
  | nil => simp [lastIndex?]
  | cons a l ih =>
    rw [lastIndex?]
    cases h : lastIndex? p l with
    | none =>
      have hl := ih.mp h
      simp only [ite_eq_right_iff, reduceCtorEq, imp_false, Bool.not_eq_true, List.forall_mem_cons]
      exact ⟨fun ha => ⟨ha, hl⟩, And.left⟩
    | some i =>
      simp only [reduceCtorEq, false_iff, List.forall_mem_cons, not_and]
      intro _ hl
      exact absurd (ih.mpr hl) (by simp [h])

theorem getElem?_of_lastIndex? {l : List α} {i : Nat} (h : lastIndex? p l = some i) :
    ∃ a, l[i]? = some a ∧ p a = true := by
  induction l generalizing i with
  | nil => simp [lastIndex?] at h
  | cons a l ih =>
    rw [lastIndex?] at h
    cases hl : lastIndex? p l with
    | some j =>
      obtain ⟨b, hb, hp⟩ := ih hl
      obtain rfl : j + 1 = i := by simpa [hl] using h
      exact ⟨b, by simpa using hb, hp⟩
    | none =>
      obtain ⟨ha, rfl⟩ : p a = true ∧ 0 = i := by simpa [hl] using h
      exact ⟨a, rfl, ha⟩

theorem lastIndex?_map {β : Type} {f : β → α} {l : List β} :
    lastIndex? p (l.map f) = lastIndex? (p ∘ f) l := by
  induction l with
  | nil => rfl
  | cons b l ih =>
    rw [List.map_cons, lastIndex?, lastIndex?, ih]
    rfl

/-- Where only one place satisfies the test, it is the last one. -/
theorem lastIndex?_eq_some {l : List α} {i : Nat} {a : α} (hi : l[i]? = some a) (ha : p a = true)
    (hu : ∀ (j : Nat) (b : α), l[j]? = some b → p b = true → j = i) : lastIndex? p l = some i := by
  cases h : lastIndex? p l with
  | none =>
    have := lastIndex?_eq_none_iff.mp h a (List.mem_of_getElem? hi)
    simp [ha] at this
  | some j =>
    obtain ⟨b, hb, hp⟩ := getElem?_of_lastIndex? h
    rw [hu j b hb hp]

end LastIndex

/-! ### Places by keys -/

/-- A look-up leads from each key to the place of the only member with that key. -/
structure Indexes {α κ : Type} (find : κ → Option Nat) (key : α → κ) (l : List α) : Prop where
  nodup : (l.map key).Nodup
  find_eq_some_iff : ∀ {k : κ} {i : Nat}, find k = some i ↔ ∃ a, l[i]? = some a ∧ key a = k

section Indexes

variable {α κ : Type} [DecidableEq κ] {key : α → κ} {l : List α}

theorem indexes_lastIndex? (h : (l.map key).Nodup) :
    Indexes (fun k => lastIndex? (fun a => key a == k) l) key l where
  nodup := h
  find_eq_some_iff {k i} := by
    constructor
    · intro hi
      obtain ⟨a, ha, hkey⟩ := getElem?_of_lastIndex? hi
      exact ⟨a, ha, eq_of_beq hkey⟩
    · rintro ⟨a, hi, rfl⟩
      refine lastIndex?_eq_some hi (beq_self_eq_true _) fun j b hj hb => ?_
      have hkey : (l.map key)[j]? = (l.map key)[i]? := by
        rw [List.getElem?_map, List.getElem?_map, hi, hj]
        exact congrArg some (eq_of_beq hb)
      have hlt : j < (l.map key).length := by
        rw [List.length_map]
        exact (List.getElem?_eq_some_iff.mp hj).1
      exact (List.getElem?_inj hlt h).mp hkey

theorem indexes_ofPairs [LT κ] [DecidableLT κ] (h : (l.map key).Nodup) :
    Indexes (Table.get? · (Table.ofPairs (l.zipIdx.map fun (a, i) => (key a, i)))) key l where
  nodup := h
  find_eq_some_iff {k i} := by
    have hkeys : (l.zipIdx.map fun p => key p.1).Nodup := by
      show (l.zipIdx.map (key ∘ Prod.fst)).Nodup
      rwa [← List.map_map, List.zipIdx_map_fst]
    show Table.get? k (Table.ofPairs (l.zipIdx.map fun p => (key p.1, p.2))) = some i ↔ _
    rw [Table.get?_ofPairs_map_iff hkeys]
    simp [List.mem_zipIdx_iff_getElem?]

end Indexes

/-! ### The first repeat -/

section FirstRepeat

variable {α κ : Type} [BEq κ] [LawfulBEq κ] {key : α → κ}

omit [LawfulBEq κ] in
theorem mem_of_firstRepeat? {seen : List κ} {l : List α} {a : α}
    (h : firstRepeat? key seen l = some a) : a ∈ l := by
  induction l generalizing seen with
  | nil => cases h
  | cons b l ih =>
    rw [firstRepeat?] at h
    split at h
    · obtain rfl := Option.some.inj h
      exact List.mem_cons_self
    · exact List.mem_cons_of_mem b (ih h)

/-- Without a repeat, the keys differ from one another and from those seen before. -/
theorem firstRepeat?_eq_none_iff {seen : List κ} {l : List α} :
    firstRepeat? key seen l = none ↔ (l.map key).Nodup ∧ ∀ a ∈ l, key a ∉ seen := by
  induction l generalizing seen with
  | nil => simp [firstRepeat?]
  | cons a l ih =>
    rw [firstRepeat?]
    split
    · rename_i h
      have ha : key a ∈ seen := by simpa using h
      simp [ha]
    · rename_i h
      have ha : key a ∉ seen := by simpa using h
      rw [ih, List.map_cons, List.nodup_cons, List.forall_mem_cons]
      simp only [List.mem_cons, not_or, List.mem_map, not_exists, not_and]
      constructor
      · rintro ⟨hl, hseen⟩
        exact ⟨⟨fun b hb => (hseen b hb).1, hl⟩, ha, fun b hb => (hseen b hb).2⟩
      · rintro ⟨⟨hne, hl⟩, -, hseen⟩
        exact ⟨hl, fun b hb => ⟨hne b hb, hseen b hb⟩⟩

end FirstRepeat

end WireSchema
