import WireSchema.Json.Basic

/-! The structure of documents: induction over them. -/

namespace WireSchema.Json

/-- What holds of a document whenever it holds of its items or of its members holds of every
document. -/
@[elab_as_elim]
theorem induction_on_parts {motive : Json → Prop} (j : Json)
    (step : ∀ j, (∀ items, j = .array items → ∀ k ∈ items, motive k) →
      (∀ members, j = .object members → ∀ p ∈ members, motive p.2) → motive j) : motive j := by
  refine Json.rec (motive_1 := motive) (motive_2 := fun items => ∀ j ∈ items, motive j)
    (motive_3 := fun members => ∀ p ∈ members, motive p.2) (motive_4 := fun p => motive p.2)
    ?null ?bool ?number ?string ?array ?object ?_ ?_ ?_ ?_ ?_ j
  case array =>
    intro items hitems
    refine step _ ?_ nofun
    rintro _ ⟨⟩
    exact hitems
  case object =>
    intro members hmembers
    refine step _ nofun ?_
    rintro _ ⟨⟩
    exact hmembers
  case null => exact step _ nofun nofun
  case bool | number | string => exact fun _ => step _ nofun nofun
  case refine_1 | refine_3 => simp
  case refine_2 => exact fun j items hj hitems => List.forall_mem_cons.mpr ⟨hj, hitems⟩
  case refine_4 => exact fun p members hp hmembers => List.forall_mem_cons.mpr ⟨hp, hmembers⟩
  case refine_5 => exact fun _ j hj => hj

end WireSchema.Json
