import WireSchema.Proofs.Value.Conformity

/-! Writing in place. `fill` writes a value behind the bytes that a buffer holds, step by step, and
stops at the first error with the buffer as it is by then. It does to a buffer what `write` says
without one: it adds the bytes of the writing, and they do not depend on the buffer. -/

namespace WireSchema

/-- Work on a buffer that may fail. What it did to the buffer by then stays done. -/
abbrev Filling := ExceptT EncodeError (StateM (List UInt8))

namespace Filling

def put (bs : List UInt8) : Filling Unit := modify (· ++ bs)

/-- How the work on a buffer ends, and the buffer then. -/
def on (m : Filling Unit) (buffer : List UInt8) : Except EncodeError Unit × List UInt8 :=
  (m.run.run buffer).run

end Filling

/-- What a writing does to a buffer. -/
def Writing.into (w : Writing EncodeError) : Filling Unit :=
  fun buffer => (w.result, buffer ++ w.written)

open Filling (put)

namespace Catalog

/-- Members are smaller than their object, so that filling in ends. -/
theorem sizeOf_lt_of_mem {type : String} {p : String × Value} {members : List (String × Value)}
    (hp : p ∈ members) : sizeOf p.2 < sizeOf (Value.object type members) := by
  obtain ⟨name, v⟩ := p
  have hlt := List.sizeOf_lt_of_mem hp
  simp only [Value.object.sizeOf_spec, Prod.mk.sizeOf_spec] at hlt ⊢
  omega

variable (c : Catalog)

def fillString (s : String) : Filling Unit := do
  if s.toList.contains (Char.ofNat 0) then throw (.zeroInString s)
  put (Wire.string s)

def fillEntry (d : Definition) (entry : String) : Filling Unit := do
  let some f := d.field? entry | throw (.unknownEntry d.name entry)
  put (Wire.uint f.value)

/-- Fails if some member is no field of the definition. -/
def fillChecked (d : Definition) (members : List (String × Value)) : Filling Unit := do
  if let some m := members.find? fun m => (d.indexOfName? m.1).isNone then
    throw (.unknownField d.name m.1)

/-- Writes a value as a shape to the end of the buffer. -/
def fill (v : Value) (shape : Shape) : Filling Unit :=
  match shape, v with
  | .one .bool, .bool b => put (Wire.bool b)
  | .one .byte, .byte b => put [b]
  | .one .int, .int n => put (Wire.int n)
  | .one .uint, .uint n => put (Wire.uint n)
  | .one .float, .float x => put (Wire.float x)
  | .one .string, .string s => fillString s
  | .one (.definition index), v => do
    let some d := c.definitions[index]? | throw (.unknownType (nowhere index))
    match d.kind, v with
    | .enum, .enum type entry =>
      if type = d.name then fillEntry d entry
      else throw (.mismatch d.name v.kindName)
    | .struct, .object type members =>
      if type = d.name then
        fillChecked d members
        for f in d.fields do
          match _hw : Table.get? f.name members with
          | some w => fill w f.shape
          | none => throw (.missingField d.name f.name)
      else throw (.mismatch d.name v.kindName)
    | .message, .object type members =>
      if type = d.name then
        fillChecked d members
        for f in d.fields do
          match _hw : Table.get? f.name members with
          | some w =>
            if f.isDeprecated then continue
            put (Wire.uint f.value)
            fill w f.shape
          | none => continue
        put (Wire.uint 0)
      else throw (.mismatch d.name v.kindName)
    | _, v => throw (.mismatch d.name v.kindName)
  | .many type, .array items => do
    put (Wire.count items)
    for _hw : w in items do
      fill w (.one type)
  | shape, v => throw (.mismatch (c.shapeName shape) v.kindName)
termination_by v
decreasing_by
  · exact sizeOf_lt_of_mem (Table.mem_of_get? ‹_›)
  · exact sizeOf_lt_of_mem (Table.mem_of_get? ‹_›)
  · decreasing_tactic

end Catalog

/-! ### Writings on a buffer -/

namespace Writing

variable {α : Type} {a b : Writing EncodeError}

@[simp] theorem into_empty : (empty : Writing EncodeError).into = pure () := by
  funext buffer
  simp only [into, empty, List.append_nil]
  rfl

@[simp] theorem into_note (n : Note) : (note n).into = pure () := into_empty

@[simp] theorem into_bytes (bs : List UInt8) : (bytes bs).into = put bs := rfl

@[simp] theorem into_fail (e : EncodeError) : (fail e).into = throw e := by
  funext buffer
  simp only [into, fail, List.append_nil]
  rfl

/-- The second piece goes on with the buffer that the first one leaves, unless that failed. -/
@[simp] theorem into_append : (a ++ b).into = (do a.into; b.into) := by
  funext buffer
  show (append a b).into buffer = _
  simp only [into, append, bind, ExceptT.bind, ExceptT.mk, ExceptT.bindCont, StateT.bind]
  cases a.result with
  | ok u => simp only [into, List.append_assoc]
  | error e => rfl

/-- A loop whose rounds are writings. -/
theorem into_concat {g : α → Writing EncodeError} {l : List α}
    {f : α → Unit → Filling (ForInStep Unit)}
    (h : ∀ x ∈ l, f x () = (do (g x).into; return .yield ())) :
    (concat (l.map g)).into = forIn l () f := by
  induction l with
  | nil => exact into_empty
  | cons x l ih =>
    obtain ⟨hx, hl⟩ := List.forall_mem_cons.mp h
    rw [List.map_cons, concat, into_append, ih hl, List.forIn_cons, hx]
    simp only [bind_assoc, pure_bind]

end Writing

/-! ### Filling in is writing -/

namespace Catalog

variable {c : Catalog} {d : Definition} {members : List (String × Value)}

@[simp] theorem into_writeString (s : String) : (writeString s).into = fillString s := by
  rw [writeString, fillString]
  split <;> simp

@[simp] theorem into_writeEntry (d : Definition) (entry : String) :
    (writeEntry d entry).into = fillEntry d entry := by
  rw [writeEntry, fillEntry]
  cases d.field? entry <;> simp

@[simp] theorem into_checkMembers (d : Definition) (members : List (String × Value)) :
    (checkMembers d (c.memberWriters members)).into = fillChecked d members := by
  rw [checkMembers, memberWriters_eq, List.find?_map, fillChecked]
  simp only [Function.comp_def]
  cases members.find? fun m => (d.indexOfName? m.1).isNone with
  | none => exact Writing.into_empty
  | some m => exact Writing.into_fail _

/-- An array is filled in as it is written, if its items are. -/
theorem fill_array {items : List Value} {type : TypeRef}
    (h : ∀ v ∈ items, c.fill v (.one type) = (c.write v (.one type)).into) :
    c.fill (.array items) (.many type) = (c.write (.array items) (.many type)).into := by
  have hloop := Writing.into_concat (g := fun v => c.write v (.one type)) (l := items)
    (f := fun v _ => do c.fill v (.one type); return .yield ()) fun v hv => by rw [h v hv]
  rw [fill, write_array, Writing.into_append, Writing.into_bytes, hloop]
  simp only [forIn'_eq_forIn, bind_pure_unit]

/-- An object is filled in as it is written, if its members are. -/
theorem fill_object {index : Nat} {members : List (String × Value)}
    (hd : c.definitions[index]? = some d)
    (h : ∀ p ∈ members, ∀ shape, c.fill p.2 shape = (c.write p.2 shape).into) :
    c.fill (.object d.name members) (.one (.definition index)) =
      (c.write (.object d.name members) (.one (.definition index))).into := by
  have hmember {name : String} {v : Value} (hv : Table.get? name members = some v) (shape : Shape) :
      c.fill v shape = (c.write v shape).into := h _ (Table.mem_of_get? hv) shape
  rw [fill, hd]
  -- behind the check of the names, both go through the fields in order, one round for each
  cases hk : d.kind with
  | enum => simp [write, hd, hk]
  | struct =>
    rw [write_object hd (by rw [hk]; decide), writeObject, hk]
    simp only [hk, ↓reduceIte, Writing.into_append, into_checkMembers, bind_pure_unit]
    congr 1
    funext _
    refine (Writing.into_concat fun f _ => ?_).symm
    rw [writeStructField, get?_memberWriters]
    split
    · rename_i v hv
      simp only [hv, Option.map_some, hmember hv]
    · rename_i hv
      simp only [hv, Option.map_none, Writing.into_fail]
  | message =>
    rw [write_object hd (by rw [hk]; decide), writeObject, hk]
    simp only [hk, ↓reduceIte, Writing.into_append, into_checkMembers]
    congr 1
    funext _
    congr 1
    refine (Writing.into_concat fun f _ => ?_).symm
    rw [writeMessageField, get?_memberWriters]
    split
    · rename_i v hv
      cases f.isDeprecated <;> simp [hv, hmember hv]
    · rename_i hv
      simp only [hv, Option.map_none, Writing.into_empty, pure_bind]

/-- Filling in a buffer is writing without one: by recursion, as a value is filled in. -/
theorem fill_eq_into (v : Value) (shape : Shape) : c.fill v shape = (c.write v shape).into := by
  cases shape with
  | many type =>
    cases v with
    | array items => exact fill_array fun w hw => fill_eq_into w (.one type)
    | _ => simp [fill, write]
  | one type =>
    cases type with
    | definition index =>
      cases hd : c.definitions[index]? with
      | none => cases v <;> simp [fill, write, hd]
      | some d =>
        cases v with
        | object type members =>
          by_cases htype : type = d.name
          · subst htype
            exact fill_object hd fun p hp shape => fill_eq_into p.2 shape
          · cases hk : d.kind <;> simp [fill, write, hd, hk, htype]
        | enum type entry =>
          by_cases htype : type = d.name <;> cases hk : d.kind <;> simp [fill, write, hd, hk, htype]
        | _ => simp [fill, write, hd]
    | _ => cases v <;> simp [fill, write]
termination_by v
decreasing_by
  · exact sizeOf_lt_of_mem hp
  · decreasing_tactic

/-- Whatever the buffer holds stays in place, and behind it comes what is written, up to the first
error. -/
theorem fill_on (v : Value) (shape : Shape) (buffer : List UInt8) :
    (c.fill v shape).on buffer =
      ((c.write v shape).result, buffer ++ (c.write v shape).written) := by
  rw [fill_eq_into]
  rfl

end Catalog

end WireSchema
