/-! The notes that reading, writing and compiling leave for whoever follows the work: what happened,
how much it matters, and the line of text it is shown as. -/

namespace WireSchema

/-- How much a note matters, from the least on. -/
inductive Level
  | trace
  | debug
  | info
  deriving DecidableEq

def Level.name : Level → String
  | trace => "TRACE"
  | debug => "DEBUG"
  | info => "INFO"

/-- Something worth telling that changes no result. -/
inductive Note
  | compiled (package : Option String) (definitions : Nat)
  | schemaDecoded (definitions : Nat)
  | schemaEncoded (definitions bytes : Nat)
  /-- The value of a deprecated field was read and left out. -/
  | fieldDropped (definition field : String)
  /-- The value of a deprecated field was not written. -/
  | fieldOmitted (definition field : String)
  /-- An id that the message does not declare was skipped with its value. -/
  | idSkipped (definition : String) (id value : UInt32)
  | readingBinary (path : String)
  | readingText (path : String)
  | fileWritten (bytes : Nat)
  | archiveRead (schemaBytes dataBytes : Nat)
  deriving DecidableEq

namespace Note

/-- Per-field notes are the finest, summaries for the user of the command line the coarsest. -/
def level : Note → Level
  | fieldDropped .. | fieldOmitted .. => .trace
  | fileWritten .. | archiveRead .. => .info
  | _ => .debug

def text : Note → String
  | compiled package n =>
    "compiled schema" ++ (package.map (" " ++ ·)).getD "" ++ s!" with {n} definition(s)"
  | schemaDecoded n => s!"decoded binary schema with {n} definition(s)"
  | schemaEncoded n bytes => s!"encoded {n} definition(s) into {bytes} byte(s) of binary schema"
  | fieldDropped d f => s!"Dropping deprecated field {d}.{f}"
  | fieldOmitted d f => s!"Not writing deprecated field {d}.{f}"
  | idSkipped d id value => s!"Skipping unknown field id {id} in {d} (value {value})"
  | readingBinary path => s!"reading binary schema {path}"
  | readingText path => s!"reading schema text {path}"
  | fileWritten bytes => s!"wrote {bytes} byte(s) of binary schema"
  | archiveRead schemaBytes dataBytes =>
    s!"archive holds {schemaBytes} schema byte(s) and {dataBytes} data byte(s)"

end Note

instance decidableEqExcept {ε α : Type} [DecidableEq ε] [DecidableEq α] :
    DecidableEq (Except ε α)
  | .ok a, .ok b => decidable_of_iff (a = b) (by simp)
  | .error e, .error e' => decidable_of_iff (e = e') (by simp)
  | .ok _, .error _ => isFalse nofun
  | .error _, .ok _ => isFalse nofun

/-- A computation that fails or answers and leaves notes either way. -/
structure Noted (ε α : Type) where
  result : Except ε α
  notes : List Note
  deriving DecidableEq

namespace Noted

variable {ε ε' α β : Type}

protected def pure (a : α) : Noted ε α := ⟨.ok a, []⟩

/-- The notes of both parts in order; the second part runs only after a result of the first. -/
protected def bind (x : Noted ε α) (f : α → Noted ε β) : Noted ε β :=
  match x with
  | ⟨.ok a, notes⟩ => ⟨(f a).result, notes ++ (f a).notes⟩
  | ⟨.error e, notes⟩ => ⟨.error e, notes⟩

instance : Monad (Noted ε) where
  pure := Noted.pure
  bind := Noted.bind

def fail (e : ε) : Noted ε α := ⟨.error e, []⟩

def note (n : Note) : Noted ε Unit := ⟨.ok (), [n]⟩

def ofExcept (r : Except ε α) : Noted ε α := ⟨r, []⟩

def mapError (f : ε → ε') (x : Noted ε α) : Noted ε' α := ⟨x.result.mapError f, x.notes⟩

end Noted

end WireSchema
