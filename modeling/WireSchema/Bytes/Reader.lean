import WireSchema.Note

/-! Reading a sequence of bytes from a cursor. A `Reader` takes the cursor to an `Outcome`: a result
or an error, the cursor it leaves, and the notes it took. A reader that fails leaves the cursor
behind what it had consumed by then, so reading can go on from there. -/

namespace WireSchema

/-- A position in a byte sequence: how many bytes lie before it, and the bytes from it on. -/
structure Cursor where
  offset : Nat
  rest : List UInt8
  deriving DecidableEq

namespace Cursor

def start (bytes : List UInt8) : Cursor := ⟨0, bytes⟩

def remaining (c : Cursor) : Nat := c.rest.length

def advance (c : Cursor) (n : Nat) : Cursor := ⟨c.offset + n, c.rest.drop n⟩

end Cursor

/-- Why a primitive cannot be read. -/
inductive BufferError
  /-- At `offset`, `needed` bytes would have been read, and fewer are left. -/
  | underflow (offset needed : Nat)
  /-- The byte at `offset` stands for no truth value. -/
  | invalidBool (offset : Nat) (byte : UInt8)
  deriving DecidableEq

def BufferError.message : BufferError → String
  | underflow offset needed => s!"Buffer underflow at offset {offset}: needed {needed} byte(s)"
  | invalidBool offset byte => s!"Invalid bool byte {byte} at offset {offset}"

structure Outcome (ε α : Type) where
  result : Except ε α
  cursor : Cursor
  notes : List Note
  deriving DecidableEq

/-- A step of reading. -/
def Reader (ε α : Type) : Type := Cursor → Outcome ε α

namespace Reader

variable {ε ε' α β : Type}

protected def pure (a : α) : Reader ε α := fun c => ⟨.ok a, c, []⟩

/-- One step after the other: the second starts where the first ended. -/
protected def bind (m : Reader ε α) (f : α → Reader ε β) : Reader ε β := fun c =>
  match m c with
  | ⟨.ok a, c', notes⟩ =>
    let next := f a c'
    ⟨next.result, next.cursor, notes ++ next.notes⟩
  | ⟨.error e, c', notes⟩ => ⟨.error e, c', notes⟩

instance : Monad (Reader ε) where
  pure := Reader.pure
  bind := Reader.bind

def fail (e : ε) : Reader ε α := fun c => ⟨.error e, c, []⟩

def note (n : Note) : Reader ε Unit := fun c => ⟨.ok (), c, [n]⟩

/-- The cursor itself, left where it is. -/
def cursor : Reader ε Cursor := fun c => ⟨.ok c, c, []⟩

def mapError (f : ε → ε') (m : Reader ε α) : Reader ε' α := fun c =>
  let o := m c
  ⟨o.result.mapError f, o.cursor, o.notes⟩

/-- The error of a read that needs `n` bytes at the cursor. -/
def underflow (n : Nat) : Reader BufferError α := fun c => ⟨.error (.underflow c.offset n), c, []⟩

def byte : Reader BufferError UInt8 := fun c =>
  match c.rest with
  | [] => underflow 1 c
  | b :: _ => ⟨.ok b, c.advance 1, []⟩

def bytes (n : Nat) : Reader BufferError (List UInt8) := fun c =>
  if n ≤ c.remaining then ⟨.ok (c.rest.take n), c.advance n, []⟩ else underflow n c

def times (m : Reader ε α) : Nat → Reader ε (List α)
  | 0 => pure []
  | n + 1 => do
    let a ← m
    return a :: (← m.times n)

/-- Reads once for each member of a list, passing an accumulated value along. -/
def foldl (step : β → α → Reader ε β) : List α → β → Reader ε β
  | [], b => pure b
  | a :: rest, b => do foldl step rest (← step b a)

/-- Reads one after the other, going on after a failure from where it left the cursor. -/
def session : List (Reader ε α) → Cursor → List (Outcome ε α)
  | [], _ => []
  | m :: rest, c => m c :: session rest (m c).cursor

end Reader

end WireSchema
