import WireSchema.Command.Run

/-! The command line: reads the files that a command asks for, writes the one that it makes, shows
its text and its notes, and ends with 0, with 1 after a failure, and with 2 after arguments that ask
for nothing. -/

open WireSchema

def readFile? (path : String) : IO (Option (List UInt8)) := do
  try
    return some (← IO.FS.readBinFile path).toList
  catch _ => return none

def writeFile (path : String) (bytes : List UInt8) : IO Bool := do
  try
    IO.FS.writeBinFile path (ByteArray.mk bytes.toArray)
    return true
  catch _ => return false

def readFiles (paths : List String) : IO Command.Files := do
  let contents ← paths.mapM fun path => return (path, ← readFile? path)
  return fun path => (contents.lookup path).join

/-- How the commands are asked for. -/
def usage : String :=
  "Usage: [-v] compile -i FILE [-o FILE]\n" ++
  "       [-v] print -i FILE\n" ++
  "       [-v] decode-schema -i FILE [--json]\n" ++
  "       [-v] encode -s FILE -t TYPE (--json TEXT | -i FILE)\n" ++
  "       [-v] decode -s FILE -t TYPE --hex TEXT\n" ++
  "       [-v] decode-archive -i FILE [-t TYPE]"

def showNotes (i : Invocation) (notes : List Note) : IO Unit :=
  (i.shown notes).forM fun note => IO.eprintln s!"[{note.level.name}] {note.text}"

/-- Carries out an invocation; answers the exit code. -/
def carryOut (i : Invocation) : IO UInt32 := do
  let files ← readFiles i.command.inputs
  let work := i.command.plan files
  showNotes i work.notes
  match work.result with
  | .error e => IO.eprintln s!"Error: {e.describe}"; return 1
  | .ok plan =>
    let written ← match plan.file with
      | some (path, bytes) => writeFile path bytes
      | none => pure false
    let finished := plan.finish written
    showNotes i finished.notes
    match finished.result with
    | .error e => IO.eprintln s!"Error: {e.describe}"; return 1
    | .ok text => IO.print text; return 0

def main (arguments : List String) : IO UInt32 :=
  match Invocation.ofArguments arguments with
  | some i => carryOut i
  | none => do IO.eprintln usage; return 2
