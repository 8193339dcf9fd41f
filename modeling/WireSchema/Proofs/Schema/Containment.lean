import Mathlib.Logic.Relation
import WireSchema.Proofs.Except
import WireSchema.Schema.Validity

/-! The walk that looks for structs that contain themselves. `Walks` gives its steps with no bound
on the depth; every walk ends, within as many levels as there are definitions, and `clear` answers
what it finds. A walk that ends well has met structs only from which no endless way leads on, and a
walk that fails names a struct that contains itself. -/

namespace WireSchema.Schema

variable {s : Schema} {path cleared names : List String} {name a b : String} {d : Definition}
  {answer : Except ValidityError (List String)}

theorem struct?_eq_some (h : s.struct? name = some d) :
    d ∈ s.definitions ∧ d.name = name ∧ d.kind = .struct := by
  unfold struct? at h
  cases hd : s.definition? name with
  | none => simp [hd] at h
  | some d' =>
    obtain ⟨hkind, rfl⟩ : d'.kind = .struct ∧ d' = d := by simpa [hd] using h
    exact ⟨List.mem_of_find?_eq_some hd, by simpa using List.find?_some hd, hkind⟩

/-- The struct of one name holds a value of the type of another, not an array. -/
def Contains (s : Schema) (a b : String) : Prop := ∃ d, s.struct? a = some d ∧ b ∈ d.contained

/-- The walk through types `names` in order, inside of the structs of `path`, and what it answers:
the structs cleared in the end or the first failure. -/
inductive Walks (s : Schema) :
    List String → List String → List String → Except ValidityError (List String) → Prop
  | done {path cleared : List String} : Walks s path cleared [] (.ok cleared)
  /-- What is no struct holds nothing. -/
  | pass {path cleared names : List String} {name : String}
      {answer : Except ValidityError (List String)} (hname : s.struct? name = none)
      (hrest : Walks s path cleared names answer) : Walks s path cleared (name :: names) answer
  | meet {path cleared names : List String} {name : String} {d : Definition}
      (hname : s.struct? name = some d) (hpath : name ∈ path) :
      Walks s path cleared (name :: names) (.error ⟨.recursive name, d.position⟩)
  | skip {path cleared names : List String} {name : String} {d : Definition}
      {answer : Except ValidityError (List String)} (hname : s.struct? name = some d)
      (hpath : name ∉ path) (hcleared : name ∈ cleared)
      (hrest : Walks s path cleared names answer) : Walks s path cleared (name :: names) answer
  | enter {path cleared inside names : List String} {name : String} {d : Definition}
      {answer : Except ValidityError (List String)} (hname : s.struct? name = some d)
      (hpath : name ∉ path) (hcleared : name ∉ cleared)
      (hinside : Walks s (name :: path) cleared d.contained (.ok inside))
      (hrest : Walks s path (name :: inside) names answer) :
      Walks s path cleared (name :: names) answer
  | fail {path cleared names : List String} {name : String} {d : Definition} {e : ValidityError}
      (hname : s.struct? name = some d) (hpath : name ∉ path) (hcleared : name ∉ cleared)
      (hinside : Walks s (name :: path) cleared d.contained (.error e)) :
      Walks s path cleared (name :: names) (.error e)

/-! ### Every walk ends -/

/-- The definitions that a walk inside of the structs of `path` can still enter. -/
def remaining (s : Schema) (path : List String) : List Definition :=
  s.definitions.filter (·.name ∉ path)

theorem remaining_cons_lt (hname : s.struct? name = some d) (hpath : name ∉ path) :
    (s.remaining (name :: path)).length < (s.remaining path).length := by
  obtain ⟨hd, hdname, -⟩ := struct?_eq_some hname
  have hcons : s.remaining (name :: path) = (s.remaining path).filter (·.name ≠ name) := by
    unfold remaining
    rw [List.filter_filter]
    congr 1
    funext d'
    simp
  rw [hcons, List.length_filter_lt_length_iff_exists]
  refine ⟨d, List.mem_filter.mpr ⟨hd, ?_⟩, ?_⟩
  · simpa [hdname] using hpath
  · simpa using hdname

theorem remaining_le (s : Schema) (path : List String) :
    (s.remaining path).length ≤ s.definitions.length := List.length_filter_le _ _

section Steps

variable {depth : Nat}

theorem clear_of_none (hname : s.struct? name = none) :
    s.clear (depth + 1) path cleared name = .ok cleared := by
  rw [clear, hname]

theorem clear_of_mem_path (hname : s.struct? name = some d) (hpath : name ∈ path) :
    s.clear (depth + 1) path cleared name = .error ⟨.recursive name, d.position⟩ := by
  simp only [clear, hname, List.contains_iff_mem, hpath, if_true]

theorem clear_of_mem_cleared (hname : s.struct? name = some d) (hpath : name ∉ path)
    (hcleared : name ∈ cleared) : s.clear (depth + 1) path cleared name = .ok cleared := by
  simp only [clear, hname, List.contains_iff_mem, hpath, hcleared, if_true, if_false]

theorem clear_of_enter (hname : s.struct? name = some d) (hpath : name ∉ path)
    (hcleared : name ∉ cleared) : s.clear (depth + 1) path cleared name =
      d.contained.foldlM (s.clear depth (name :: path)) cleared >>= fun inside =>
        .ok (name :: inside) := by
  simp only [clear, hname, List.contains_iff_mem, hpath, hcleared, if_false]

end Steps

/-- Bounded by more levels than can be entered, the walk is not cut short: it takes its steps to the
end. -/
theorem walks_foldlM_clear {depth : Nat} (h : (s.remaining path).length < depth) :
    Walks s path cleared names (names.foldlM (s.clear depth path) cleared) := by
  induction depth generalizing path cleared names with
  | zero => omega
  | succ depth ih =>
    induction names generalizing cleared with
    | nil => exact .done
    | cons name names ihRest =>
      rw [List.foldlM_cons]
      cases hname : s.struct? name with
      | none =>
        rw [clear_of_none hname]
        exact .pass hname ihRest
      | some d =>
        by_cases hpath : name ∈ path
        · rw [clear_of_mem_path hname hpath]
          exact .meet hname hpath
        by_cases hcleared : name ∈ cleared
        · rw [clear_of_mem_cleared hname hpath hcleared]
          exact .skip hname hpath hcleared ihRest
        have hlt := remaining_cons_lt hname hpath
        have hinside : Walks s (name :: path) cleared d.contained _ := ih (by omega)
        rw [clear_of_enter hname hpath hcleared]
        cases hr : d.contained.foldlM (s.clear depth (name :: path)) cleared with
        | error e =>
          rw [hr] at hinside
          exact .fail hname hpath hcleared hinside
        | ok inside =>
          rw [hr] at hinside
          exact .enter hname hpath hcleared hinside ihRest

theorem Walks.eq_foldlM_clear (h : Walks s path cleared names answer) {depth : Nat}
    (hdepth : (s.remaining path).length < depth) :
    names.foldlM (s.clear depth path) cleared = answer := by
  induction h generalizing depth with
  | done => rfl
  | pass hname _ ih =>
    obtain ⟨depth, rfl⟩ : ∃ n, depth = n + 1 := ⟨depth - 1, by omega⟩
    rw [List.foldlM_cons, clear_of_none hname]
    exact ih hdepth
  | meet hname hpath =>
    obtain ⟨depth, rfl⟩ : ∃ n, depth = n + 1 := ⟨depth - 1, by omega⟩
    rw [List.foldlM_cons, clear_of_mem_path hname hpath]
    rfl
  | skip hname hpath hcleared _ ih =>
    obtain ⟨depth, rfl⟩ : ∃ n, depth = n + 1 := ⟨depth - 1, by omega⟩
    rw [List.foldlM_cons, clear_of_mem_cleared hname hpath hcleared]
    exact ih hdepth
  | enter hname hpath hcleared _ _ ihInside ihRest =>
    obtain ⟨depth, rfl⟩ : ∃ n, depth = n + 1 := ⟨depth - 1, by omega⟩
    have hlt := remaining_cons_lt hname hpath
    rw [List.foldlM_cons, clear_of_enter hname hpath hcleared, ihInside (by omega)]
    exact ihRest hdepth
  | fail hname hpath hcleared _ ihInside =>
    obtain ⟨depth, rfl⟩ : ∃ n, depth = n + 1 := ⟨depth - 1, by omega⟩
    have hlt := remaining_cons_lt hname hpath
    rw [List.foldlM_cons, clear_of_enter hname hpath hcleared, ihInside (by omega)]
    rfl

/-- Every walk ends, in one way. -/
theorem existsUnique_walks (s : Schema) (path cleared names : List String) :
    ∃! answer, Walks s path cleared names answer := by
  have hlt : (s.remaining path).length < s.definitions.length + 1 := by
    have := s.remaining_le path
    omega
  exact ⟨_, walks_foldlM_clear hlt, fun answer h => (h.eq_foldlM_clear hlt).symm⟩

/-- The check is the walk through all definitions. -/
theorem Walks.checkContainment_eq
    (h : Walks s [] [] (s.definitions.map (·.name)) answer) :
    s.checkContainment = answer.map fun _ => () := by
  have hlt : (s.remaining []).length < s.definitions.length + 1 := by
    have := s.remaining_le []
    omega
  have hwalk := h.eq_foldlM_clear hlt
  rw [List.foldlM_map] at hwalk
  unfold checkContainment
  rw [hwalk]
  cases answer <;> rfl

/-! ### What a walk finds -/

/-- A walk that ends well has met only types from which no endless way leads through structs. -/
theorem Walks.acc (h : Walks s path cleared names answer)
    (hcleared : ∀ a ∈ cleared, Acc (flip s.Contains) a) :
    ∀ {after}, answer = .ok after →
      (∀ a ∈ names, Acc (flip s.Contains) a) ∧ ∀ a ∈ after, Acc (flip s.Contains) a := by
  induction h with
  | done =>
    rintro after ⟨⟩
    exact ⟨by simp, hcleared⟩
  | pass hname _ ih =>
    intro after hanswer
    obtain ⟨hnames, hafter⟩ := ih hcleared hanswer
    refine ⟨List.forall_mem_cons.mpr ⟨⟨_, ?_⟩, hnames⟩, hafter⟩
    rintro b ⟨d, hd, -⟩
    simp [hname] at hd
  | meet => nofun
  | skip _ _ hmem _ ih =>
    intro after hanswer
    obtain ⟨hnames, hafter⟩ := ih hcleared hanswer
    exact ⟨List.forall_mem_cons.mpr ⟨hcleared _ hmem, hnames⟩, hafter⟩
  | enter hname _ _ _ _ ihInside ihRest =>
    intro after hanswer
    obtain ⟨hcontained, hinside⟩ := ihInside hcleared rfl
    have hself : Acc (flip s.Contains) _ := ⟨_, by
      rintro b ⟨d', hd', hb⟩
      obtain rfl := Option.some.inj (hname.symm.trans hd')
      exact hcontained b hb⟩
    obtain ⟨hnames, hafter⟩ := ihRest (List.forall_mem_cons.mpr ⟨hself, hinside⟩) hanswer
    exact ⟨List.forall_mem_cons.mpr ⟨hself, hnames⟩, hafter⟩
  | fail => nofun

/-- A walk fails at a struct only that contains itself. The structs of the path contain all types
that the walk goes through. -/
theorem Walks.recursive (h : Walks s path cleared names answer)
    (hpath : ∀ a ∈ path, ∀ n ∈ names, Relation.TransGen s.Contains a n) :
    ∀ {e}, answer = .error e → ∃ name d, e = ⟨.recursive name, d.position⟩ ∧
      s.struct? name = some d ∧ Relation.TransGen s.Contains name name := by
  induction h with
  | done => nofun
  | pass _ _ ih => exact ih fun a ha n hn => hpath a ha n (List.mem_cons_of_mem _ hn)
  | meet hname hmem =>
    rintro e ⟨⟩
    exact ⟨_, _, rfl, hname, hpath _ hmem _ List.mem_cons_self⟩
  | skip _ _ _ _ ih => exact ih fun a ha n hn => hpath a ha n (List.mem_cons_of_mem _ hn)
  | enter _ _ _ _ _ _ ihRest =>
    exact ihRest fun a ha n hn => hpath a ha n (List.mem_cons_of_mem _ hn)
  | fail hname _ _ _ ihInside =>
    refine ihInside fun a ha n hn => ?_
    have hstep : s.Contains _ n := ⟨_, hname, hn⟩
    rcases List.mem_cons.mp ha with rfl | ha
    · exact .single hstep
    · exact .tail (hpath a ha _ List.mem_cons_self) hstep

theorem not_transGen_of_acc (h : Acc (flip s.Contains) a) : ¬ Relation.TransGen s.Contains a a := by
  induction h with
  | intro a _ ih =>
    intro hcycle
    -- the first step of the cycle leads to a type that is on it as well
    obtain ⟨b, hab, hba⟩ := Relation.TransGen.head'_iff.mp hcycle
    exact ih b hab (.tail' hba hab)

/-- Containment passes the check exactly if no struct contains itself, however indirectly. -/
theorem checkContainment_eq_ok_iff :
    s.checkContainment = .ok () ↔ ∀ name, ¬ Relation.TransGen s.Contains name name := by
  obtain ⟨answer, hwalk, -⟩ := s.existsUnique_walks [] [] (s.definitions.map (·.name))
  rw [hwalk.checkContainment_eq]
  cases answer with
  | error e =>
    obtain ⟨name, d, -, -, hcycle⟩ := hwalk.recursive (by simp) rfl
    exact iff_of_false (by simp [Except.map]) fun h => h name hcycle
  | ok after =>
    refine iff_of_true rfl fun name hcycle => ?_
    obtain ⟨hnames, -⟩ := hwalk.acc (by simp) rfl
    obtain ⟨_, ⟨d, hd, -⟩, -⟩ := Relation.TransGen.head'_iff.mp hcycle
    obtain ⟨hmem, rfl, -⟩ := struct?_eq_some hd
    exact not_transGen_of_acc (hnames d.name (List.mem_map_of_mem hmem)) hcycle

end WireSchema.Schema
