import WireSchema.Proofs.Catalog.Alteration
import WireSchema.Proofs.Mirroring
import WireSchema.Proofs.Value.Erasure
import WireSchema.Value.Decode

/-! Reading the same bytes with two catalogs that differ in the fields of messages. If each member
of a message is read alike with both, but for members that the second leaves out, so are values of
all types, at every depth. -/

namespace WireSchema.Catalog

open Reader (Mirrors)
open Value (Leaves)

/-- The value that is left of `v`. -/
def LeavesValue (gone : String → String → Bool) (v w : Value) : Prop := v.without gone = w

variable {c c' : Catalog} {alter : Definition → Definition}

section Mirroring

variable {F : DecodeError → DecodeError → Prop} (hF : ∀ e e', F e e' → F e e)
  {gone : String → String → Bool} {d : Definition} {inner inner' : Shape → Reader DecodeError Value}
include hF

theorem mirrors_readEntry : Mirrors F (LeavesValue gone) (readEntry d) (readEntry d) := by
  refine (Mirrors.refl hF _).bind ?_
  rintro value _ rfl
  split
  · exact .pure rfl
  · exact .fail (hF _)

omit hF in
theorem mirrors_readStruct (h : ∀ shape, Mirrors F (LeavesValue gone) (inner shape) (inner' shape))
    (hkept : ∀ f ∈ d.fields, gone d.name f.name = false) :
    Mirrors F (LeavesValue gone) (readStruct inner d) (readStruct inner' d) := by
  have hmembers : Mirrors F (Leaves gone d.name)
      (Reader.foldl (fun members (f : Field) =>
        return Table.insert f.name (← inner f.shape) members) d.fields [])
      (Reader.foldl (fun members (f : Field) =>
        return Table.insert f.name (← inner' f.shape) members) d.fields []) := by
    refine .foldl (fun f hf members left hleft => (h f.shape).bind ?_) Value.leaves_nil
    rintro v _ rfl
    exact .pure (hleft.insert (hkept f hf))
  refine hmembers.bind ?_
  rintro members _ ⟨-, rfl⟩
  exact .pure rfl

theorem mirrors_readMembers {d' : Definition}
    (h : ∀ id members left, Leaves gone d.name members left →
      Mirrors F (Leaves gone d.name) (readMember inner d id members) (readMember inner' d' id left))
    (n : Nat) {members left : List (String × Value)} (hleft : Leaves gone d.name members left) :
    Mirrors F (Leaves gone d.name) (readMembers inner d n members)
      (readMembers inner' d' n left) := by
  induction n generalizing members left with
  | zero => exact (Mirrors.refl hF _).bind fun _ _ _ => .pure hleft
  | succ n ih =>
    refine (Mirrors.refl hF _).bind ?_
    rintro id _ rfl
    split
    · exact .pure hleft
    · exact (h id members left hleft).bind fun _ _ hleft => ih hleft

theorem mirrors_readMessage {d' : Definition} (hname : d'.name = d.name)
    (h : ∀ id members left, Leaves gone d.name members left →
      Mirrors F (Leaves gone d.name) (readMember inner d id members)
        (readMember inner' d' id left)) :
    Mirrors F (LeavesValue gone) (readMessage inner d) (readMessage inner' d') := by
  refine Mirrors.cursor.bind ?_
  rintro here _ rfl
  refine (mirrors_readMembers hF h here.remaining Value.leaves_nil).bind ?_
  rintro members _ ⟨-, rfl⟩
  rw [hname]
  exact .pure rfl

/-- Values of all shapes are read alike, and so are the members of messages. -/
structure ReadsAlike (F : DecodeError → DecodeError → Prop) (gone : String → String → Bool)
    (c : Catalog) (alter : Definition → Definition)
    (read read' : Shape → Reader DecodeError Value) : Prop where
  value : ∀ shape, Mirrors F (LeavesValue gone) (read shape) (read' shape)
  member : ∀ d ∈ c.definitions, d.kind = .message →
    ∀ id members left, Leaves gone d.name members left →
      Mirrors F (Leaves gone d.name) (readMember read d id members)
        (readMember read' (alter d) id left)

theorem mirrors_readShape (hc : AltersMessages c c' alter)
    (hkept : ∀ d ∈ c.definitions, d.kind = .struct → ∀ f ∈ d.fields, gone d.name f.name = false)
    {read read' : Option (Shape → Reader DecodeError Value)}
    (h : Option.Rel (ReadsAlike F gone c alter) read read') (shape : Shape) :
    Mirrors F (LeavesValue gone) (c.readShape read shape) (c'.readShape read' shape) := by
  have hprimitive : ∀ {α : Type} (m : Reader BufferError α) (make : α → Value),
      (∀ a, (make a).without gone = make a) →
      Mirrors F (LeavesValue gone) (do return make (← m)) (do return make (← m)) := by
    intro α m make hmake
    refine (Mirrors.refl hF _).bind ?_
    rintro a _ rfl
    exact .pure (hmake a)
  cases shape with
  | many type =>
    cases h with
    | none => exact .fail (hF _)
    | some h =>
      rw [readShape, readShape, hc.readCount_eq]
      refine (Mirrors.refl hF _).bind ?_
      rintro n _ rfl
      refine ((h.value (.one type)).times n).bind fun items left hleft => .pure ?_
      rw [LeavesValue, Value.without_array, Value.array.injEq]
      exact List.forall₂_eq_eq_eq ▸ List.forall₂_map_left_iff.mpr hleft
  | one type =>
    cases type with
    | bool => exact hprimitive Reader.bool .bool fun _ => rfl
    | byte => exact hprimitive Reader.byte .byte fun _ => rfl
    | int => exact hprimitive Reader.int .int fun _ => rfl
    | uint => exact hprimitive Reader.uint .uint fun _ => rfl
    | float => exact hprimitive Reader.float .float fun _ => rfl
    | string => exact hprimitive Reader.string .string fun _ => rfl
    | definition index =>
      cases hd : c.definitions[index]? with
      | none =>
        simp only [readShape, hc.getElem?, hd, Option.map_none]
        exact .fail (hF _)
      | some d =>
        have hmem := List.mem_of_getElem? hd
        simp only [readShape, hc.getElem?, hd, Option.map_some, hc.kind]
        cases hk : d.kind with
        | enum =>
          rw [hc.fixed d hmem (by simp [hk])]
          exact mirrors_readEntry hF
        | struct =>
          rw [hc.fixed d hmem (by simp [hk])]
          cases h with
          | none => exact .fail (hF _)
          | some h => exact mirrors_readStruct h.value (hkept d hmem hk)
        | message =>
          cases h with
          | none => exact .fail (hF _)
          | some h => exact mirrors_readMessage hF (hc.name d) (h.member d hmem hk)

/-- Values are read alike with the two catalogs if the members of messages are wherever the values
one level deeper are. By induction on the levels. -/
theorem mirrors_readWithin (hc : AltersMessages c c' alter)
    (hkept : ∀ d ∈ c.definitions, d.kind = .struct → ∀ f ∈ d.fields, gone d.name f.name = false)
    (hmember : ∀ levels,
      (∀ shape,
        Mirrors F (LeavesValue gone) (c.readWithin levels shape) (c'.readWithin levels shape)) →
      ReadsAlike F gone c alter (c.readWithin levels) (c'.readWithin levels))
    (levels : Nat) (shape : Shape) :
    Mirrors F (LeavesValue gone) (c.readWithin levels shape) (c'.readWithin levels shape) := by
  induction levels generalizing shape with
  | zero => exact mirrors_readShape hF hc hkept .none shape
  | succ levels ih => exact mirrors_readShape hF hc hkept (.some (hmember levels ih)) shape

end Mirroring

/-- Decoding follows reading, with the errors of reading and the bytes that are left over. -/
theorem decodeAs_eq_map {gone : String → String → Bool} {type : TypeRef}
    (h : Mirrors Eq (LeavesValue gone) (c.readValue type) (c'.readValue type))
    (bytes : List UInt8) :
    (c'.decodeAs type bytes).result = (c.decodeAs type bytes).result.map (Value.without gone) := by
  rw [decodeAs, decodeAs]
  cases hresult : (c.readValue type (.start bytes)).result with
  | error e =>
    obtain ⟨_, rfl, hfails⟩ := h.fails hresult rfl
    rw [hfails]
    rfl
  | ok v =>
    obtain ⟨_, rfl, hresult', hcursor⟩ := h.reads ⟨hresult, rfl⟩
    rw [hresult', hcursor]
    dsimp only
    split <;> rfl

end WireSchema.Catalog
