import WireSchema.Command.Parameter

/-! The commands: what can be asked for on the command line, and how it is asked for. -/

namespace WireSchema

/-- Where a document comes from. -/
inductive Command.Source
  | text (text : String)
  | file (path : String)
  deriving DecidableEq

inductive Command
  /-- Writes a schema in its binary form. -/
  | compile (input : String) (output : Option String)
  /-- Shows a schema as canonical text. -/
  | print (input : String)
  /-- Shows a binary schema as canonical text or as a document. -/
  | decodeSchema (input : String) (asJson : Bool)
  /-- Shows the bytes of a document. -/
  | encode (schema type : String) (document : Option Command.Source)
  /-- Shows the document of some bytes. -/
  | decode (schema type hex : String)
  /-- Shows the schema of an archive, or its data as a document of a type. -/
  | decodeArchive (input : String) (type : Option String)
  deriving DecidableEq

/-- A command, and whether the user wants to follow the work. -/
structure Invocation where
  verbose : Bool
  command : Command
  deriving DecidableEq

namespace Command

/-- The files that a command may read. -/
def inputs : Command → List String
  | compile input _ | print input | decodeSchema input _ | decodeArchive input _ => [input]
  | encode schema _ (some (.file path)) => [schema, path]
  | encode schema _ _ | decode schema _ _ => [schema]

open Parameter

/-- How a command is asked for: its name, its parameters, and the command that they make, if none
that it needs is missing. -/
structure Form where
  name : String
  parameters : List Parameter
  build : List Given → Option Command

def input : Parameter := ⟨"input", some 'i', .path⟩

def schema : Parameter := ⟨"schema", some 's', .path⟩

def type : Parameter := ⟨"type", some 't', .text⟩

def verbose : Parameter := ⟨"verbose", some 'v', .switch⟩

/-- The document of an encoding, which comes from one place at most. -/
def source? (given : List Given) : Option (Option Source) :=
  match given.lookup "json", given.lookup "input" with
  | some _, some _ => none
  | some text, none => some (some (.text text))
  | none, some path => some (some (.file path))
  | none, none => some none

def forms : List Form := [
  ⟨"compile", [input, ⟨"output", some 'o', .path⟩], fun given =>
    return compile (← given.lookup "input") (given.lookup "output")⟩,
  ⟨"print", [input], fun given => return print (← given.lookup "input")⟩,
  ⟨"decode-schema", [input, ⟨"json", none, .switch⟩], fun given =>
    return decodeSchema (← given.lookup "input") (given.lookup "json").isSome⟩,
  ⟨"encode", [schema, type, ⟨"json", none, .text⟩, input], fun given =>
    return encode (← given.lookup "schema") (← given.lookup "type") (← source? given)⟩,
  ⟨"decode", [schema, type, ⟨"hex", none, .text⟩], fun given =>
    return decode (← given.lookup "schema") (← given.lookup "type") (← given.lookup "hex")⟩,
  ⟨"decode-archive", [input, type], fun given =>
    return decodeArchive (← given.lookup "input") (given.lookup "type")⟩]

end Command

/-- What a command line asks for. The switch for following the work may stand before the name of the
command and behind it, once in each place. -/
def Invocation.ofArguments (arguments : List String) : Option Invocation := do
  let before := arguments.takeWhile Parameter.looksLike
  if before.contains "--" then none
  let first ← Parameter.read [Command.verbose] before
  match arguments.dropWhile Parameter.looksLike with
  | [] => none
  | name :: rest => do
    let form ← Command.forms.find? (·.name == name)
    let given ← Parameter.read (Command.verbose :: form.parameters) rest
    let command ← form.build given
    return ⟨!first.isEmpty || (given.lookup "verbose").isSome, command⟩

end WireSchema
