import WireSchema.Attempt
import WireSchema.Command.Basic
import WireSchema.Command.Path
import WireSchema.Schema.Printer

/-! What the commands do. The work of a command up to its end is a plan: what to show, and perhaps a
file to write before that. A plan is carried out in a folder, or by a program that writes files. -/

namespace WireSchema

namespace Command

/-- Gives the content of a file, if it can be read. -/
abbrev Files := String → Option (List UInt8)

def readBytes (files : Files) (path : String) : Attempt (List UInt8) :=
  match files path with
  | some bytes => pure bytes
  | none => Noted.fail .io

def readText (files : Files) (path : String) : Attempt String := do
  match Utf8.decode? (← readBytes files path) with
  | some text => pure text
  | none => Noted.fail .io

/-- The schema in a file: in its binary form if the extension says so, otherwise as text. -/
def readSchema (files : Files) (path : String) : Attempt Schema := do
  if Path.extension? path = some "bin" then
    Noted.note (.readingBinary path)
    Schema.ofBytes (← readBytes files path)
  else
    Noted.note (.readingText path)
    Schema.ofText (← readText files path)

def Source.read (files : Files) : Option Source → Attempt String
  | some (.text content) => pure content
  | some (.file path) => readText files path
  | none => Noted.fail .noDocument

/-- What to show, and a file to write first, with what it is to hold. -/
structure Plan where
  output : String
  file : Option (String × List UInt8) := none
  deriving DecidableEq

/-- Nothing but text on a line of its own. -/
def Plan.line (text : String) : Plan := ⟨text ++ "\n", none⟩

/-- The file that a compiled schema goes to, if no other is named. -/
def defaultOutput (input : String) : String := Path.withExtension input "kiwi.bin"

/-- The work of a command, as far as it changes nothing. -/
def plan (files : Files) : Command → Attempt Plan
  | compile input output => do
    let schema ← readSchema files input
    let _ ← schema.toCatalog
    let bytes ← schema.toBytes
    let target := output.getD (defaultOutput input)
    return ⟨s!"Compiled {input} → {target}\n", some (target, bytes)⟩
  | print input => return ⟨(← readSchema files input).print, none⟩
  | decodeSchema input asJson => do
    let bytes ← readBytes files input
    if asJson then return .line (← Schema.documentOfBytes bytes)
    else return ⟨(← Schema.ofBytes bytes).print, none⟩
  | encode schema type document => do
    let catalog ← (← readSchema files schema).toCatalog
    let text ← Source.read files document
    let bytes ← catalog.encodeJson type (← Json.ofText text)
    return .line (Hex.print bytes)
  | decode schema type hex => do
    let catalog ← (← readSchema files schema).toCatalog
    let document ← catalog.decodeJson type (← Hex.ofText hex)
    return .line document.pretty
  | decodeArchive input type => do
    let archive ← Archive.ofBytes (← readBytes files input)
    Noted.note (.archiveRead archive.schema.length archive.data.length)
    match type with
    | some type => return .line (← archive.dataToJson type).pretty
    | none => return ⟨(← Schema.ofBytes archive.schema).print, none⟩

/-- The end of a plan, when its file was written or could not be. -/
def Plan.finish (p : Plan) (written : Bool) : Attempt String := do
  match p.file with
  | none => pure p.output
  | some (_, bytes) =>
    if written then
      Noted.note (.fileWritten bytes.length)
      pure p.output
    else Noted.fail .io

/-- A command carried out in a folder: what it shows, and the folder afterwards. -/
def run (command : Command) (folder : Folder) : Attempt String × Folder :=
  let work := command.plan folder.read?
  match work.result with
  | .error _ => (work.bind fun p => pure p.output, folder)
  | .ok p =>
    let after := p.file.bind fun (path, bytes) => folder.write? path bytes
    (work.bind fun p => p.finish after.isSome, after.getD folder)

end Command

/-- The notes that an invocation shows: when the user follows the work all but the finest, otherwise
none. -/
def Invocation.shown (i : Invocation) (notes : List Note) : List Note :=
  if i.verbose then notes.filter (·.level ≠ .trace) else []

end WireSchema
