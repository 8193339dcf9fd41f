import WireSchema.Proofs.Catalog.Closed
import WireSchema.Proofs.Value.Canonical
import WireSchema.Proofs.Value.Delimiting

/-! Reading values is safe with any catalog at all: one that nothing has checked, whose places may
lead nowhere, whose structs may lie within themselves and whose names and values may repeat. Reading
ends, at a place among the bytes; what it answers nests no deeper than it may; and a type that it
does not know is a place that leads nowhere. -/

namespace WireSchema

namespace Reader

variable {ε β γ : Type} {round : β → Reader ε (β ⊕ γ)} {b : β} {c : Cursor} {o o' : Outcome ε γ}

/-- The runs of a loop that nothing bounds: rounds are made for as long as each of them answers a
new state, and the run ends with one that fails or answers a result. -/
inductive Loops (round : β → Reader ε (β ⊕ γ)) : β → Cursor → Outcome ε γ → Prop
  | fail {b : β} {c c' : Cursor} {e : ε} {notes : List Note}
      (h : round b c = ⟨.error e, c', notes⟩) :
      Loops round b c ⟨.error e, c', notes⟩
  | stop {b : β} {c c' : Cursor} {a : γ} {notes : List Note}
      (h : round b c = ⟨.ok (.inr a), c', notes⟩) :
      Loops round b c ⟨.ok a, c', notes⟩
  | next {b b' : β} {c c' : Cursor} {notes : List Note} {o : Outcome ε γ}
      (h : round b c = ⟨.ok (.inl b'), c', notes⟩) (rest : Loops round b' c' o) :
      Loops round b c ⟨o.result, o.cursor, notes ++ o.notes⟩

theorem Loops.unique (h : Loops round b c o) (h' : Loops round b c o') : o = o' := by
  induction h generalizing o' with
  | fail h | stop h =>
    cases h' with
    | _ h' => simp_all
  | next h rest ih =>
    cases h' with
    | fail h' | stop h' => simp [h] at h'
    | next h' rest' =>
      rw [h] at h'
      simp only [Outcome.mk.injEq, Except.ok.injEq, Sum.inl.injEq] at h'
      obtain ⟨rfl, rfl, rfl⟩ := h'
      rw [ih rest']

/-- A round and what comes after it, if that is a run from each state that the round may answer. -/
theorem Loops.of_bind {next : β → Reader ε γ}
    (h : ∀ b' c', Reads (round b) c (.inl b') c' → Loops round b' c' (next b' c')) :
    Loops round b c ((round b >>= Sum.elim next pure) c) := by
  rw [bind_eq]
  cases hround : round b c with
  | mk result c' notes =>
    cases result with
    | error e => exact .fail hround
    | ok ended =>
      cases ended with
      | inr a =>
        show Loops round b c ⟨.ok a, c', notes ++ []⟩
        rw [List.append_nil]
        exact .stop hround
      | inl b' => exact .next hround (h b' c' ⟨by rw [hround], by rw [hround]⟩)

end Reader

namespace Catalog

open DecodeError (Past)
open Reader (Fails Delimited Loops)

variable {c : Catalog} {d : Definition} {levels : Nat} {shape : Shape}
  {inner : Shape → Reader DecodeError Value}

/-! ### The loop over the members of a message -/

/-- One round: an id, and the member of that id; or the end, at the id 0. -/
def memberRound (inner : Shape → Reader DecodeError Value) (d : Definition)
    (members : List (String × Value)) :
    Reader DecodeError (List (String × Value) ⊕ List (String × Value)) := do
  let id ← Reader.uint
  if id = 0 then return .inr members
  else return .inl (← readMember inner d id members)

theorem readMembers_succ (n : Nat) (members : List (String × Value)) :
    readMembers inner d (n + 1) members =
      memberRound inner d members >>= Sum.elim (readMembers inner d n) pure := by
  simp only [readMembers, memberRound, bind_assoc]
  refine bind_congr fun id => ?_
  split
  · rfl
  · rw [bind_assoc]
    rfl

section Loop

variable (h : ∀ shape, Delimited Past 0 (inner shape))
include h

theorem delimited_memberRound (members : List (String × Value)) :
    Delimited Past 1 (memberRound inner d members) := by
  refine (delimited_lift Reader.delimited_uint).map fun id => ?_
  split
  · exact .pure _
  · exact (delimited_readMember h id members).map fun _ => .pure _

/-- By induction on the bound: each round reads a byte at least, so that as many rounds as bytes are
left are enough. -/
theorem loops_readMembers {n : Nat} {members : List (String × Value)} {cursor : Cursor}
    (hn : cursor.remaining ≤ n) :
    Loops (memberRound inner d) members cursor (readMembers inner d n members cursor) := by
  induction n generalizing members cursor with
  | zero =>
    rw [readMembers_eq h hn (Nat.le_succ_of_le hn), readMembers_succ]
    refine .of_bind fun members' cursor' hround => ?_
    have := (delimited_memberRound h members).remaining_le hround
    omega
  | succ n ih =>
    rw [readMembers_succ]
    refine .of_bind fun members' cursor' hround => ih ?_
    have := (delimited_memberRound h members).remaining_le hround
    omega

/-- From wherever it starts, the loop has exactly one run, which is what reading a message does. -/
theorem loops_iff {members : List (String × Value)} {cursor : Cursor}
    {o : Outcome DecodeError (List (String × Value))} :
    Loops (memberRound inner d) members cursor o ↔
      readMembers inner d cursor.remaining members cursor = o := by
  have hloops :
      Loops (memberRound inner d) members cursor
        (readMembers inner d cursor.remaining members cursor) :=
    loops_readMembers h (Nat.le_refl _)
  exact ⟨hloops.unique, fun ho => ho ▸ hloops⟩

end Loop

/-! ### Nesting -/

theorem Readable.depth_le {v : Value} (h : Readable c levels shape v) : v.depth ≤ levels := by
  induction h with
  | primitive _ _ hdepth => rw [hdepth]; exact Nat.zero_le _
  | enum => exact Nat.zero_le _
  | struct _ _ _ _ ih | message _ _ _ _ ih =>
    refine Value.depth_object_le_iff.mpr fun p hp => ?_
    obtain ⟨q, hq, rfl⟩ := List.mem_map.mp (Table.mem_of_mem_ofPairs hp)
    exact ih q hq
  | array _ _ _ ih => exact Value.depth_array_le_iff.mpr ih

/-! ### Unknown types -/

/-- The shapes that reading a type can lead to: its own, and those of fields. -/
def Met (c : Catalog) (type : TypeRef) (shape : Shape) : Prop :=
  shape.type = type ∨ ∃ d ∈ c.definitions, ∃ f ∈ d.fields, f.type = shape.type

/-- Only at a place that leads nowhere is a type unknown. -/
theorem exists_met_of_fails {type : TypeRef} {name : String} {cursor : Cursor}
    (h : Fails (c.readValue type) cursor (.unknownType name)) :
    ∃ index, c.Met type (.one (.definition index)) ∧ c.definitions[index]? = none ∧
      nowhere index = name := by
  by_contra hnone
  have hinherited : c.Inherited (c.Met type) (Reader.Avoids (.unknownType name)) := by
    refine .avoids (fun _ hd f hf => ?_) id fun hmet hd hname => hnone ⟨_, hmet, hd, hname⟩
    exact .inr ⟨_, List.mem_of_getElem? hd, f, hf, f.type_shape.symm⟩
  exact hinherited.readWithin maxDepth (.inl rfl) cursor h

/-! ### All of it -/

/-- Reading a value from anywhere in some bytes, with any catalog. The cursor stays among the bytes
and does not go back; what is answered nests at most 512 deep; an unknown type is a place with no
definition; a value found among those of fields is that of a field; and the loop over the members of
a message, which nothing bounds, has exactly one run. -/
theorem readValue_safe (c : Catalog) (type : TypeRef) {bytes : List UInt8} {start : Nat}
    (hstart : start ≤ bytes.length) :
    let o := c.readValue type ⟨start, bytes.drop start⟩
    (start ≤ o.cursor.offset ∧ o.cursor.offset ≤ bytes.length ∧
      o.cursor.rest = bytes.drop o.cursor.offset) ∧
    (∀ v, o.result = .ok v → v.depth ≤ 512) ∧
    (∀ name, o.result = .error (.unknownType name) →
      ∃ index, c.definitions.length ≤ index ∧ name = nowhere index ∧
        (type = .definition index ∨
          ∃ d ∈ c.definitions, ∃ f ∈ d.fields, f.type = .definition index)) ∧
    (∀ d ∈ c.definitions, ∀ value place, d.indexOfValue? value = some place →
      place < d.fields.length) ∧
    ∀ levels, ∀ d ∈ c.definitions, ∀ members cursor o,
      Loops (memberRound (c.readWithin levels) d) members cursor o ↔
        readMembers (c.readWithin levels) d cursor.remaining members cursor = o := by
  intro o
  refine ⟨?cursor, ?depth, ?unknown, ?places, ?loop⟩
  case cursor =>
    have hadvances : Reader.Advances (c.readValue type) :=
      Inherited.advances.readWithin maxDepth trivial
    obtain ⟨n, hn, hcursor⟩ := hadvances ⟨start, bytes.drop start⟩
    rw [Cursor.remaining, List.length_drop] at hn
    have ho : o.cursor = ⟨start + n, bytes.drop (start + n)⟩ := by
      rw [← List.drop_drop]
      exact hcursor
    rw [ho]
    exact ⟨Nat.le_add_right .., by dsimp only; omega, rfl⟩
  case depth => exact fun v hv => (readable_of_reads ⟨hv, rfl⟩).depth_le
  case unknown =>
    intro name hname
    obtain ⟨index, hmet, hnone, rfl⟩ := exists_met_of_fails hname
    exact ⟨index, List.getElem?_eq_none_iff.mp hnone, rfl, hmet.imp_left Eq.symm⟩
  case places =>
    intro d _ value place hplace
    obtain ⟨f, hf, -⟩ := getElem?_of_lastIndex? hplace
    exact (List.getElem?_eq_some_iff.mp hf).1
  case loop =>
    exact fun levels d _ members cursor o =>
      loops_iff fun shape => (delimited_readWithin levels shape).mono (Nat.zero_le _)

/-- A struct within itself, and a message with two fields of one name and id, of which the last one
is an array of what is nowhere; read from the second byte on. -/
theorem readValue_safe_unchecked :
    let c : Catalog := ⟨[⟨"Knot", .struct, [⟨"knot", .definition 0, false, false, 1⟩]⟩,
      ⟨"Bag", .message, [⟨"x", .definition 0, false, false, 1⟩,
        ⟨"x", .definition 7, true, false, 1⟩]⟩]⟩
    let o := c.readValue (.definition 1) ⟨1, [9, 1, 2, 5, 5].drop 1⟩
    o.result = .error (.unknownType "#7") ∧
      (1 ≤ o.cursor.offset ∧ o.cursor.offset ≤ 5 ∧
        o.cursor.rest = [9, 1, 2, 5, 5].drop o.cursor.offset) ∧
      ∃ index, 2 ≤ index ∧ "#7" = nowhere index ∧
        (TypeRef.definition 1 = .definition index ∨
          ∃ d ∈ c.definitions, ∃ f ∈ d.fields, f.type = .definition index) := by
  intro c o
  have hstart : 1 ≤ [9, 1, 2, 5, (5 : UInt8)].length := by decide
  have hresult : o.result = .error (.unknownType "#7") := rfl
  obtain ⟨hcursor, -, hunknown, -, -⟩ := readValue_safe c (.definition 1) hstart
  exact ⟨hresult, hcursor, hunknown _ hresult⟩

end Catalog

end WireSchema
