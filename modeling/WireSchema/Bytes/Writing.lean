import WireSchema.Note

/-! Writing bytes. A `Writing` is what one piece of writing adds to the bytes before it, whether it
ends well or fails: the bytes it wrote by then, the notes it took, and its end. Two pieces follow
one another by `++`; nothing written is ever changed, and what a piece adds depends on nothing
before it. -/

namespace WireSchema

/-- What a piece of writing adds, and how it ends. -/
structure Writing (ε : Type) where
  written : List UInt8
  notes : List Note
  result : Except ε Unit
  deriving DecidableEq

namespace Writing

variable {ε ε' : Type}

def empty : Writing ε := ⟨[], [], .ok ()⟩

def bytes (bs : List UInt8) : Writing ε := ⟨bs, [], .ok ()⟩

def note (n : Note) : Writing ε := ⟨[], [n], .ok ()⟩

def fail (e : ε) : Writing ε := ⟨[], [], .error e⟩

/-- One piece after the other; a failed piece ends the writing. -/
def append (a b : Writing ε) : Writing ε :=
  match a.result with
  | .ok () => ⟨a.written ++ b.written, a.notes ++ b.notes, b.result⟩
  | .error e => ⟨a.written, a.notes, .error e⟩

instance : Append (Writing ε) := ⟨append⟩

def concat : List (Writing ε) → Writing ε
  | [] => empty
  | w :: rest => w ++ concat rest

/-- Everything written, if the writing ends well. -/
def toNoted (w : Writing ε) : Noted ε (List UInt8) := ⟨w.result.map fun _ => w.written, w.notes⟩

end Writing

end WireSchema
