import Mathlib.Algebra.Group.Nat.Defs
import WireSchema.Proofs.Table
import WireSchema.Value.Basic

/-! The structure of values: induction over them, their parts, how deep their containers nest, and
the two properties of the containers in a value that make it one that programs hold: members of
objects are tables, and no array is longer than a count can say. -/

namespace WireSchema.Value

/-- Induction over values: what holds of all items holds of an array, and what holds of all members
holds of an object. -/
@[elab_as_elim, induction_eliminator]
theorem induction {motive : Value → Prop}
    (bool : ∀ b, motive (.bool b)) (byte : ∀ b, motive (.byte b)) (int : ∀ n, motive (.int n))
    (uint : ∀ n, motive (.uint n)) (float : ∀ x, motive (.float x))
    (string : ∀ s, motive (.string s))
    (array : ∀ items, (∀ v ∈ items, motive v) → motive (.array items))
    (enum : ∀ type entry, motive (.enum type entry))
    (object : ∀ type members, (∀ p ∈ members, motive p.2) → motive (.object type members))
    (v : Value) : motive v := by
  refine Value.rec (motive_1 := motive) (motive_2 := fun items => ∀ v ∈ items, motive v)
    (motive_3 := fun members => ∀ p ∈ members, motive p.2) (motive_4 := fun p => motive p.2)
    bool byte int uint float string array enum object ?_ ?_ ?_ ?_ ?_ v
  case refine_1 => simp
  case refine_2 => exact fun v items hv hitems => List.forall_mem_cons.mpr ⟨hv, hitems⟩
  case refine_3 => simp
  case refine_4 => exact fun p members hp hmembers => List.forall_mem_cons.mpr ⟨hp, hmembers⟩
  case refine_5 => exact fun _ v hv => hv

/-- The first value stands somewhere in the second, or is the second. -/
inductive Part : Value → Value → Prop
  | self (v : Value) : Part v v
  | item {w v : Value} {items : List Value} (hv : v ∈ items) (h : Part w v) : Part w (.array items)
  | member {w : Value} {p : String × Value} {type : String} {members : List (String × Value)}
      (hp : p ∈ members) (h : Part w p.2) : Part w (.object type members)

/-- The members of every object are a table. -/
def Ordered (v : Value) : Prop :=
  ∀ type members, Part (.object type members) v → Table.Sorted members

/-- A count can say the length of every array. -/
def ArraysFit (v : Value) : Prop := ∀ items, Part (.array items) v → items.length < 2 ^ 32

mutual

/-- How deep arrays and objects nest. -/
def depth : Value → Nat
  | .array items => depthOfItems items + 1
  | .object _ members => depthOfMembers members + 1
  | _ => 0

def depthOfItems : List Value → Nat
  | [] => 0
  | v :: rest => max v.depth (depthOfItems rest)

def depthOfMembers : List (String × Value) → Nat
  | [] => 0
  | (_, v) :: rest => max v.depth (depthOfMembers rest)

end

theorem depth_array_le_iff {items : List Value} {levels : Nat} :
    (array items).depth ≤ levels + 1 ↔ ∀ v ∈ items, v.depth ≤ levels := by
  rw [depth, Nat.add_le_add_iff_right]
  induction items with
  | nil => simp [depthOfItems]
  | cons v items ih => rw [depthOfItems, Nat.max_le, ih, List.forall_mem_cons]

theorem depth_object_le_iff {type : String} {members : List (String × Value)} {levels : Nat} :
    (object type members).depth ≤ levels + 1 ↔ ∀ p ∈ members, p.2.depth ≤ levels := by
  rw [depth, Nat.add_le_add_iff_right]
  induction members with
  | nil => simp [depthOfMembers]
  | cons p members ih => rw [depthOfMembers, Nat.max_le, ih, List.forall_mem_cons]

theorem depth_array_pos (items : List Value) : 0 < (array items).depth := by
  rw [depth]
  omega

theorem depth_object_pos (type : String) (members : List (String × Value)) :
    0 < (object type members).depth := by
  rw [depth]
  omega

/-! ### The properties of a value by its kind -/

/-- A value that is no container has no part but itself. -/
theorem Part.eq_of_depth {w v : Value} (h : Part w v) (hv : v.depth = 0) : w = v := by
  cases h with
  | self => rfl
  | item => exact absurd hv (Nat.ne_of_gt (depth_array_pos _))
  | member => exact absurd hv (Nat.ne_of_gt (depth_object_pos _ _))

theorem ordered_of_depth {v : Value} (hv : v.depth = 0) : v.Ordered := fun type members h => by
  rw [← h.eq_of_depth hv] at hv
  exact absurd hv (Nat.ne_of_gt (depth_object_pos type members))

theorem ordered_array_iff {items : List Value} :
    (array items).Ordered ↔ ∀ v ∈ items, v.Ordered := by
  constructor
  · exact fun h v hv type members hp => h type members (.item hv hp)
  · intro h type members hp
    cases hp with
    | item hv hp => exact h _ hv type members hp

theorem ordered_object_iff {type : String} {members : List (String × Value)} :
    (object type members).Ordered ↔ Table.Sorted members ∧ ∀ p ∈ members, p.2.Ordered := by
  constructor
  · exact fun h => ⟨h type members (.self _), fun p hp t ms hpart => h t ms (.member hp hpart)⟩
  · rintro ⟨hsorted, h⟩ t ms hp
    cases hp with
    | self => exact hsorted
    | member hp hpart => exact h _ hp t ms hpart

theorem arraysFit_of_depth {v : Value} (hv : v.depth = 0) : v.ArraysFit := fun items h => by
  rw [← h.eq_of_depth hv] at hv
  exact absurd hv (Nat.ne_of_gt (depth_array_pos items))

theorem arraysFit_array_iff {items : List Value} :
    (array items).ArraysFit ↔ items.length < 2 ^ 32 ∧ ∀ v ∈ items, v.ArraysFit := by
  constructor
  · exact fun h => ⟨h items (.self _), fun v hv is hp => h is (.item hv hp)⟩
  · rintro ⟨hlength, h⟩ is hp
    cases hp with
    | self => exact hlength
    | item hv hp => exact h _ hv is hp

theorem arraysFit_object_iff {type : String} {members : List (String × Value)} :
    (object type members).ArraysFit ↔ ∀ p ∈ members, p.2.ArraysFit := by
  constructor
  · exact fun h p hp items hpart => h items (.member hp hpart)
  · intro h items hp
    cases hp with
    | member hp hpart => exact h _ hp items hpart

end WireSchema.Value
