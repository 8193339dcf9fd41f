import WireSchema.Proofs.Value.Basic

/-! Values without some members of their objects, which are given by the type of the object and the
name of the member. -/

namespace WireSchema.Value

variable {gone : String → String → Bool} {type : String}

mutual

/-- A value whose objects, however deep they lie, have lost the members that are `gone`. -/
def without (gone : String → String → Bool) : Value → Value
  | .array items => .array (withoutItems gone items)
  | .object type members => .object type (withoutMembers gone type members)
  | v => v

def withoutItems (gone : String → String → Bool) : List Value → List Value
  | [] => []
  | v :: rest => without gone v :: withoutItems gone rest

def withoutMembers (gone : String → String → Bool) (type : String) :
    List (String × Value) → List (String × Value)
  | [] => []
  | (name, v) :: rest =>
    if gone type name then withoutMembers gone type rest
    else (name, without gone v) :: withoutMembers gone type rest

end

theorem without_array (items : List Value) :
    (array items).without gone = .array (items.map (without gone)) := by
  rw [without]
  congr 1
  induction items with
  | nil => rfl
  | cons v items ih => rw [withoutItems, ih, List.map_cons]

/-- Values without parts stay as they are. -/
theorem without_of_depth {v : Value} (hv : v.depth = 0) : v.without gone = v := by
  cases v with
  | array items => exact absurd hv (Nat.ne_of_gt (depth_array_pos items))
  | object type members => exact absurd hv (Nat.ne_of_gt (depth_object_pos type members))
  | _ => rfl

theorem withoutMembers_eq (members : List (String × Value)) : withoutMembers gone type members =
    (members.filter fun p => !gone type p.1).map fun p => (p.1, p.2.without gone) := by
  induction members with
  | nil => rfl
  | cons p members ih =>
    rw [withoutMembers, ih]
    cases hgone : gone type p.1 <;> simp [hgone]

theorem get?_withoutMembers (name : String) (members : List (String × Value)) :
    Table.get? name (withoutMembers gone type members) =
      if gone type name then none else (Table.get? name members).map (without gone) := by
  rw [withoutMembers_eq, Table.get?_map, Table.get?_filter fun name => !gone type name]
  cases gone type name <;> rfl

/-- The members of a table and those that are left of them. -/
def Leaves (gone : String → String → Bool) (type : String) (members left : List (String × Value)) :
    Prop :=
  Table.Sorted members ∧ withoutMembers gone type members = left

theorem leaves_nil : Leaves gone type [] [] := ⟨Table.sorted_nil, rfl⟩

variable {members left : List (String × Value)} {name : String} {v : Value}

theorem Leaves.sorted (h : Leaves gone type members left) : Table.Sorted left := by
  rw [← h.2, withoutMembers_eq]
  exact List.Pairwise.map _ (fun _ _ hlt => hlt) (h.1.filter _)

theorem Leaves.insert (h : Leaves gone type members left) (hkept : gone type name = false) :
    Leaves gone type (Table.insert name v members) (Table.insert name (v.without gone) left) := by
  have hinsert := Table.sorted_insert h.1 name v
  refine ⟨hinsert, Table.ext (Leaves.sorted ⟨hinsert, rfl⟩) (Table.sorted_insert h.sorted name _)
    fun k => ?_⟩
  rw [get?_withoutMembers, Table.get?_insert, Table.get?_insert, ← h.2, get?_withoutMembers]
  by_cases hk : k = name
  · simp [hk, hkept]
  · simp [hk]

theorem Leaves.insert_gone (h : Leaves gone type members left) (hgone : gone type name = true) :
    Leaves gone type (Table.insert name v members) left := by
  have hinsert := Table.sorted_insert h.1 name v
  refine ⟨hinsert, Table.ext (Leaves.sorted ⟨hinsert, rfl⟩) h.sorted fun k => ?_⟩
  rw [get?_withoutMembers, Table.get?_insert, ← h.2, get?_withoutMembers]
  by_cases hk : k = name
  · simp [hk, hgone]
  · simp [hk]

end WireSchema.Value
