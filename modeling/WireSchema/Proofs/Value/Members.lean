import WireSchema.Proofs.Text.ByteOrder
import WireSchema.Proofs.Value.Document

/-! The members of objects in documents. The document of a value has, in the place of every object,
just the members of that object, each once and as the document of its value: first those that fields
are named after, in the order in which the definition first names them, then the others in the order
of their bytes. -/

namespace WireSchema.Catalog

variable {c : Catalog} {type : String} {v : Value} {j : Json}

/-- The names of fields that the definition of a type's name declares, in order and as often as it
does. -/
def fieldNames (c : Catalog) (type : String) : List String :=
  match c.definition? type with
  | some d => d.fields.map (·.name)
  | none => []

/-- The order of members, by the fields that are declared: these come first, each in the place where
it is declared first; the others follow by their bytes. -/
inductive Precedes (fields : List String) : String → String → Prop
  | declared {a b : String} (hb : b ∈ fields) (h : fields.idxOf a < fields.idxOf b) :
      Precedes fields a b
  | known {a b : String} (ha : a ∈ fields) (hb : b ∉ fields) : Precedes fields a b
  | unknown {a b : String} (ha : a ∉ fields) (hb : b ∉ fields) (h : Utf8.encode a < Utf8.encode b) :
      Precedes fields a b

/-- A value as a document shows it, part by part. -/
inductive Shown (c : Catalog) : Value → Json → Prop
  | bool (b : Bool) : Shown c (.bool b) (.bool b)
  | byte (b : UInt8) : Shown c (.byte b) (Json.ofNat b.toNat)
  | int (n : Int32) : Shown c (.int n) (Json.int n.toInt)
  | uint (n : UInt32) : Shown c (.uint n) (Json.ofNat n.toNat)
  | float {x : Binary32} (hx : x.isFinite = true) : Shown c (.float x) (.number (.real x.widen))
  | string (s : String) : Shown c (.string s) (.string s)
  | enum (type entry : String) : Shown c (.enum type entry) (.string entry)
  | array {items : List Value} {js : List Json} (hitems : List.Forall₂ (Shown c) items js) :
      Shown c (.array items) (.array js)
  | object {type : String} {members : List (String × Value)} {js : List (String × Json)}
      (hnames : ∀ name, name ∈ js.map Prod.fst ↔ name ∈ members.map Prod.fst)
      (honce : (js.map Prod.fst).Nodup)
      (horder : (js.map Prod.fst).Pairwise (Precedes (c.fieldNames type)))
      (hmembers : ∀ name v j, (name, v) ∈ members → (name, j) ∈ js → Shown c v j) :
      Shown c (.object type members) (.object js)

/-! ### The order of names -/

theorem Precedes.asymm {fields : List String} {a b : String} (h : Precedes fields a b) :
    ¬ Precedes fields b a := by
  have hmem : ∀ {a b : String}, b ∈ fields → fields.idxOf a < fields.idxOf b → a ∈ fields :=
    fun hb hlt =>
      List.idxOf_lt_length_iff.mp (Nat.lt_trans hlt (List.idxOf_lt_length_of_mem hb))
  intro h'
  cases h with
  | declared hb hlt =>
    cases h' with
    | declared _ hlt' => exact Nat.lt_asymm hlt hlt'
    | known _ ha => exact ha (hmem hb hlt)
    | unknown hb' => exact hb' hb
  | known ha hb =>
    cases h' with
    | declared ha' hlt' => exact hb (hmem ha' hlt')
    | known hb' => exact hb hb'
    | unknown _ ha' => exact ha' ha
  | unknown ha hb hlt =>
    cases h' with
    | declared ha' => exact ha ha'
    | known hb' => exact hb hb'
    | unknown _ _ hlt' => exact List.lt_asymm hlt hlt'

/-- Of two names in what a filter leaves, the one that is first there is first in the whole. -/
theorem idxOf_lt_of_filter {p : String → Bool} {l : List String} {a b : String} (hb : p b = true)
    (h : (l.filter p).idxOf a < (l.filter p).idxOf b) : l.idxOf a < l.idxOf b := by
  induction l with
  | nil => exact h
  | cons x l ih =>
    by_cases hxb : x = b
    · subst hxb
      rw [List.filter_cons_of_pos hb, List.idxOf_cons_self] at h
      exact absurd h (Nat.not_lt_zero _)
    rw [List.idxOf_cons_ne l hxb]
    by_cases hxa : x = a
    · rw [hxa, List.idxOf_cons_self]
      exact Nat.succ_pos _
    rw [List.idxOf_cons_ne l hxa]
    by_cases hx : p x = true
    · rw [List.filter_cons_of_pos hx, List.idxOf_cons_ne _ hxa, List.idxOf_cons_ne _ hxb] at h
      exact Nat.succ_lt_succ (ih (Nat.lt_of_succ_lt_succ h))
    · rw [List.filter_cons_of_neg hx] at h
      exact Nat.succ_lt_succ (ih h)

/-- Of repeated names the first ones are kept, in order. -/
theorem pairwise_eraseDups (l : List String) :
    l.eraseDups.Pairwise fun a b => l.idxOf a < l.idxOf b := by
  cases l with
  | nil => exact .nil
  | cons a l =>
    have hmem : ∀ {b}, b ∈ (l.filter fun b => !b == a).eraseDups → (!b == a) = true := fun hb =>
      (List.mem_filter.mp (List.mem_eraseDups.mp hb)).2
    have hne : ∀ {b}, b ∈ (l.filter fun b => !b == a).eraseDups → a ≠ b := fun hb hab => by
      simpa [hab] using hmem hb
    rw [List.eraseDups_cons, List.pairwise_cons]
    refine ⟨fun b hb => ?_, (pairwise_eraseDups _).imp_of_mem fun hb hd h => ?_⟩
    · rw [List.idxOf_cons_self, List.idxOf_cons_ne l (hne hb)]
      exact Nat.succ_pos _
    · rw [List.idxOf_cons_ne l (hne hb), List.idxOf_cons_ne l (hne hd)]
      exact Nat.succ_lt_succ (idxOf_lt_of_filter (p := fun b => !b == a) (hmem hd) h)
termination_by l.length
decreasing_by exact Nat.lt_succ_of_le (List.length_filter_le _ l)

theorem declaredNames_eq (c : Catalog) (type : String) :
    c.declaredNames type = (c.fieldNames type).eraseDups := by
  unfold declaredNames fieldNames
  cases c.definition? type <;> rfl

theorem pairwise_arrange {α : Type} {members : List (String × α)} (h : Table.Sorted members) :
    ((c.arrange type members).map Prod.fst).Pairwise (Precedes (c.fieldNames type)) := by
  have hmem : ∀ {n : String}, n ∈ c.declaredNames type ↔ n ∈ c.fieldNames type := by
    rw [declaredNames_eq]
    exact List.mem_eraseDups
  have hknown : ∀ {n}, n ∈ (c.declaredNames type).filter (fun n => (Table.get? n members).isSome) →
      n ∈ c.fieldNames type := fun hn => hmem.mp (List.mem_filter.mp hn).1
  have hunknown : ∀ {n},
      n ∈ (members.map Prod.fst).filter (fun n => !(c.declaredNames type).contains n) →
      n ∉ c.fieldNames type := fun hn => mt hmem.mpr (by simpa using (List.mem_filter.mp hn).2)
  have hdeclared : (c.declaredNames type).Pairwise fun a b =>
      (c.fieldNames type).idxOf a < (c.fieldNames type).idxOf b := by
    rw [declaredNames_eq]
    exact pairwise_eraseDups _
  have hbytes : (members.map Prod.fst).Pairwise fun a b => Utf8.encode a < Utf8.encode b :=
    List.pairwise_map.mpr (h.imp Utf8.encode_lt_encode)
  rw [map_fst_arrange, List.pairwise_append]
  refine ⟨(hdeclared.filter _).imp_of_mem fun _ hb hlt => .declared (hknown hb) hlt,
    (hbytes.filter _).imp_of_mem fun ha hb hlt => .unknown (hunknown ha) (hunknown hb) hlt,
    fun a ha b hb => .known (hknown ha) (hunknown hb)⟩

theorem mem_map_fst_arrange {α : Type} {name : String} {members : List (String × α)}
    (h : Table.Sorted members) :
    name ∈ (c.arrange type members).map Prod.fst ↔ name ∈ members.map Prod.fst := by
  simp only [List.mem_map, mem_arrange h]

/-! ### The members of a document -/

theorem shown_of_toJson (hordered : v.Ordered) (h : c.toJson v = .ok j) : Shown c v j := by
  induction v generalizing j with
  | float x =>
    rw [toJson] at h
    split at h
    · obtain rfl := Except.ok.inj h
      exact .float ‹_›
    · cases h
  | array items ih =>
    obtain ⟨js, hjs, rfl⟩ := toJson_array_eq_ok_iff.mp h
    refine .array (Except.forall₂_imp_of_mem hjs fun v hv j _ hj => ?_)
    exact ih v hv (Value.ordered_array_iff.mp hordered v hv) hj
  | object type members ih =>
    obtain ⟨hsorted, hordered⟩ := Value.ordered_object_iff.mp hordered
    obtain ⟨js, hjs, rfl⟩ := toJson_object_eq_ok_iff.mp h
    have hnames : js.map Prod.fst = (c.arrange type members).map Prod.fst :=
      Except.map_eq_of_forall₂ hjs And.left
    refine .object (fun name => hnames ▸ mem_map_fst_arrange hsorted)
      (hnames ▸ nodup_arrange hsorted) (hnames ▸ pairwise_arrange hsorted) fun name v j hv hj => ?_
    -- a name has one member only, so the document found under it is that of this member
    obtain ⟨⟨_, w⟩, hw, rfl, hjw⟩ := Except.exists_of_forall₂ hjs hj
    have hw := (mem_arrange hsorted).mp hw
    obtain rfl :=
      Option.some.inj ((Table.get?_of_mem hsorted hw).symm.trans (Table.get?_of_mem hsorted hv))
    exact ih _ hw (hordered _ hw) hjw
  | _ =>
    obtain rfl := Except.ok.inj h
    constructor

/-- No other document shows a value: names that are the same and in the same order are the same
list. -/
theorem toJson_of_shown (hordered : v.Ordered) (h : Shown c v j) : c.toJson v = .ok j := by
  induction v generalizing j with
  | float x =>
    cases h with
    | float hx => rw [toJson, if_pos hx]
  | array items ih =>
    cases h with
    | @array _ js hjs =>
      refine toJson_array_eq_ok_iff.mpr ⟨js,
        Except.forall₂_imp_of_mem hjs fun v hv j _ hj => ?_, rfl⟩
      exact ih v hv (Value.ordered_array_iff.mp hordered v hv) hj
  | object type members ih =>
    obtain ⟨hsorted, hordered⟩ := Value.ordered_object_iff.mp hordered
    cases h with
    | @object _ _ js hnames honce horder hmembers =>
      have hperm : (js.map Prod.fst).Perm ((c.arrange type members).map Prod.fst) :=
        (List.perm_ext_iff_of_nodup honce (nodup_arrange hsorted)).mpr fun name =>
          (hnames name).trans (mem_map_fst_arrange hsorted).symm
      have heq := hperm.eq_of_pairwise (fun _ _ _ _ hab hba => absurd hba hab.asymm) horder
        (pairwise_arrange hsorted)
      have hjs : List.Forall₂ (fun p q => p.1 = q.1) (c.arrange type members) js := by
        rwa [eq_comm, ← List.forall₂_eq_eq_eq, List.forall₂_map_left_iff,
          List.forall₂_map_right_iff] at heq
      refine toJson_object_eq_ok_iff.mpr ⟨js, Except.forall₂_imp_of_mem hjs ?_, rfl⟩
      rintro ⟨name, v⟩ hp ⟨_, j⟩ hq rfl
      have hp := (mem_arrange hsorted).mp hp
      exact ⟨rfl, ih _ hp (hordered _ hp) (hmembers name v j hp hq)⟩
  | _ =>
    cases h
    rfl

/-- The document of a value, whatever the definitions and whether or not the value is of any of
them: every object in it is shown with just its members, each once and by the document of its own
value, the declared ones first and as they are first declared, the others by their bytes; and there
is no other such document. -/
theorem toJson_eq_ok_iff_shown (hordered : v.Ordered) : c.toJson v = .ok j ↔ Shown c v j :=
  ⟨shown_of_toJson hordered, toJson_of_shown hordered⟩

/-- Fields of one name, a definition that another of its name replaces, members that no field is
named after, in an order that counting in units of sixteen bits would turn around, and an object of
no definition. -/
theorem toJson_eq_ok_iff_shown_page :
    let field (name : String) (number : UInt32) : Field := ⟨name, .int, false, false, number⟩
    let c : Catalog := ⟨[⟨"Page", .message, [field "b" 1, field "a" 2]⟩,
      ⟨"Page", .message, [field "z" 1, field "a" 2, field "z" 3, field "unset" 4]⟩]⟩
    let members : List (String × Value) :=
      [("a", .int 1), ("b", .int 2), ("z", .int 3), ("\uffff", .int 4),
        ("😀", .object "None" [("a", .float ⟨0x3F800000⟩), ("z", .bool true)])]
    let v : Value := .object "Page" members
    let js : List (String × Json) :=
      [("z", .int 3), ("a", .int 1), ("b", .int 2), ("\uffff", .int 4),
        ("😀", .object [("a", .number (.real ⟨0x3FF0000000000000⟩)), ("z", .bool true)])]
    v.Ordered ∧ c.toJson v = .ok (.object js) ∧ Shown c v (.object js) := by
  intro field c members v js
  have hnone : (Value.object "None" [("a", .float ⟨0x3F800000⟩), ("z", .bool true)]).Ordered := by
    refine Value.ordered_object_iff.mpr ⟨?_, ?_⟩
    · show List.Pairwise _ _
      decide
    · simpa using ⟨Value.ordered_of_depth rfl, Value.ordered_of_depth rfl⟩
  have hordered : v.Ordered := by
    refine Value.ordered_object_iff.mpr ⟨?_, ?_⟩
    · show List.Pairwise _ _
      decide
    · simp only [members, List.forall_mem_cons, List.not_mem_nil]
      exact ⟨Value.ordered_of_depth rfl, Value.ordered_of_depth rfl, Value.ordered_of_depth rfl,
        Value.ordered_of_depth rfl, hnone, by simp⟩
  have hj : c.toJson v = .ok (.object js) := by rfl
  exact ⟨hordered, hj, (toJson_eq_ok_iff_shown hordered).mp hj⟩

end WireSchema.Catalog
