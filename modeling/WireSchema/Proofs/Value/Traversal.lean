import WireSchema.Proofs.Advancing
import WireSchema.Proofs.Catalog.Valid
import WireSchema.Value.Decode

/-! Reading values, step by step. Which steps are taken depends on the catalog and the bytes, but
all of them are of few kinds: primitives, failures, and what lies one level deeper. So a property of
readers that passes from the steps to a sequence holds of reading values of any shape, if it holds
of the steps met from there. -/

namespace WireSchema.Catalog

open Reader (Compositional Advances)

/-- A property of all steps that reading takes from certain shapes, which lead to no others. -/
structure Inherited (c : Catalog) (among : Shape → Prop)
    (P : ∀ {α : Type}, Reader DecodeError α → Prop) : Prop extends Compositional P where
  field : ∀ {index : Nat} {d : Definition}, among (.one (.definition index)) →
    c.definitions[index]? = some d → ∀ f ∈ d.fields, among f.shape
  item : ∀ {type : TypeRef}, among (.many type) → among (.one type)
  lift : ∀ {α : Type} {m : Reader BufferError α}, Advances m →
    P (monadLift m : Reader DecodeError α)
  fail : ∀ {α : Type} (e : DecodeError), (∀ name, e ≠ .unknownType name) →
    P (Reader.fail e : Reader DecodeError α)
  unknown : ∀ {index : Nat}, among (.one (.definition index)) → c.definitions[index]? = none →
    P (Reader.fail (.unknownType (nowhere index)) : Reader DecodeError Value)

namespace Inherited

variable {c : Catalog} {d : Definition} {among : Shape → Prop}
  {P : ∀ {α : Type}, Reader DecodeError α → Prop} {inner : Shape → Reader DecodeError Value}

theorem primitive (hP : c.Inherited among P) {α : Type} {m : Reader BufferError α} (h : Advances m)
    (make : α → Value) : P (do return make (← m) : Reader DecodeError Value) :=
  hP.bind (hP.lift h) fun a => hP.pure (make a)

theorem readEntry (hP : c.Inherited among P) : P (readEntry d) := by
  refine hP.bind (hP.lift .uint) fun value => ?_
  split
  · exact hP.pure _
  · exact hP.fail _ nofun

theorem readCount (hP : c.Inherited among P) (type : TypeRef) : P (c.readCount type) := by
  refine hP.bind (hP.lift .uint) fun n => hP.bind hP.cursor fun here => ?_
  split
  · split
    · exact hP.bind (hP.fail _ nofun) fun _ => hP.pure _
    · exact hP.pure _
  · split
    · exact hP.bind (hP.fail _ nofun) fun _ => hP.pure _
    · exact hP.pure _

theorem readStruct (hP : c.Inherited among P) (h : ∀ f ∈ d.fields, P (inner f.shape)) :
    P (readStruct inner d) := by
  refine hP.bind (hP.foldl (fun f hf members => ?_) []) fun members => hP.pure _
  exact hP.bind (h f hf) fun v => hP.pure _

theorem readMember (hP : c.Inherited among P) (h : ∀ f ∈ d.fields, P (inner f.shape)) (id : UInt32)
    (members : List (String × Value)) : P (readMember inner d id members) := by
  unfold Catalog.readMember
  split
  · rename_i f hf
    refine hP.bind (h f (Definition.of_fieldOfValue? hf).1) fun v => ?_
    split
    · exact hP.bind (hP.note _) fun _ => hP.pure _
    · exact hP.pure _
  · exact hP.bind (hP.lift .uint) fun value => hP.bind (hP.note _) fun _ => hP.pure _

theorem readMembers (hP : c.Inherited among P) (h : ∀ f ∈ d.fields, P (inner f.shape)) (n : Nat)
    (members : List (String × Value)) : P (readMembers inner d n members) := by
  induction n generalizing members with
  | zero => exact hP.bind (hP.lift .uint) fun _ => hP.pure _
  | succ n ih =>
    refine hP.bind (hP.lift .uint) fun id => ?_
    split
    · exact hP.pure _
    · exact hP.bind (hP.readMember h id members) ih

theorem readMessage (hP : c.Inherited among P) (h : ∀ f ∈ d.fields, P (inner f.shape)) :
    P (readMessage inner d) :=
  hP.bind hP.cursor fun _ => hP.bind (hP.readMembers h _ _) fun _ => hP.pure _

theorem readShape (hP : c.Inherited among P) {inner : Option (Shape → Reader DecodeError Value)}
    (hinner : ∀ read, inner = some read → ∀ shape, among shape → P (read shape)) {shape : Shape}
    (h : among shape) : P (c.readShape inner shape) := by
  cases shape with
  | many type =>
    cases inner with
    | none => exact hP.fail _ nofun
    | some read =>
      refine hP.bind (hP.readCount type) fun n => ?_
      exact hP.bind (hP.times (hinner read rfl _ (hP.item h)) n) fun _ => hP.pure _
  | one type =>
    cases type with
    | bool => exact hP.primitive .bool .bool
    | byte => exact hP.primitive .byte .byte
    | int => exact hP.primitive .int .int
    | uint => exact hP.primitive .uint .uint
    | float => exact hP.primitive .float .float
    | string => exact hP.primitive .string .string
    | definition index =>
      rw [Catalog.readShape]
      split
      · exact hP.unknown h ‹_›
      · rename_i d hd
        have hfields : ∀ {read}, inner = some read → ∀ f ∈ d.fields, P (read f.shape) :=
          fun hread f hf => hinner _ hread _ (hP.field h hd f hf)
        split
        · exact hP.readEntry
        · exact hP.fail _ nofun
        · exact hP.readStruct (hfields rfl)
        · exact hP.readMessage (hfields rfl)

/-- By induction on the levels: one level deeper, the shapes are among the same. -/
theorem readWithin (hP : c.Inherited among P) (levels : Nat) {shape : Shape} (h : among shape) :
    P (c.readWithin levels shape) := by
  induction levels generalizing shape with
  | zero => exact hP.readShape (by simp) h
  | succ levels ih =>
    refine hP.readShape (fun read hread shape hshape => ?_) h
    obtain rfl := Option.some.inj hread
    exact ih hshape

/-- Reading avoids an unknown type that no place met leads to. -/
theorem avoids {name : String}
    (field : ∀ {index d}, among (.one (.definition index)) → c.definitions[index]? = some d →
      ∀ f ∈ d.fields, among f.shape)
    (item : ∀ {type}, among (.many type) → among (.one type))
    (hname : ∀ {index}, among (.one (.definition index)) → c.definitions[index]? = none →
      nowhere index ≠ name) :
    c.Inherited among (Reader.Avoids (.unknownType name)) where
  toCompositional := Reader.Avoids.compositional _
  field := field
  item := item
  lift _ := .mapError nofun _
  fail _ he := .fail (he name)
  unknown hindex hnone := .fail fun h => hname hindex hnone (DecodeError.unknownType.inj h)

theorem advances : c.Inherited (fun _ => True) Advances where
  toCompositional := Advances.compositional
  field _ _ _ _ := trivial
  item _ := trivial
  lift h := h.mapError DecodeError.buffer
  fail e _ := .fail e
  unknown _ _ := .fail _

end Inherited

end WireSchema.Catalog
