import WireSchema.Table

/-! Parameters on a command line. A parameter has a name, given after two dashes, and perhaps a
letter, given after one; a switch stands alone, every other parameter has a value. The value follows
as the next argument, which must not look like a parameter itself, or in the same argument: behind
the name and an equals sign, or behind the letter with or without one. Switches and at last one
other parameter may share a dash. Nothing is given twice, and nothing else is given. -/

namespace WireSchema

/-- What a parameter takes. -/
inductive Parameter.Operand
  | switch
  | text
  /-- A path, which is never empty. -/
  | path
  deriving DecidableEq

structure Parameter where
  name : String
  letter : Option Char
  operand : Parameter.Operand
  deriving DecidableEq

namespace Parameter

/-- A parameter's name and what was given for it; nothing for a switch. -/
abbrev Given := String × String

/-- Whether an argument looks like a parameter; a dash alone does not. -/
def looksLike (argument : String) : Bool :=
  match argument.toList with
  | '-' :: _ :: _ => true
  | _ => false

/-- What the letters behind one dash give, and the parameter whose value is still to come. -/
def ofLetters (ps : List Parameter) : List Char → Option (List Given × Option Parameter)
  | [] => some ([], none)
  | c :: rest => do
    let p ← ps.find? (·.letter == some c)
    if p.operand = .switch then
      let (given, pending) ← ofLetters ps rest
      return ((p.name, "") :: given, pending)
    else
      match rest with
      | [] => return ([], some p)
      | '=' :: value => return ([(p.name, String.ofList value)], none)
      | value => return ([(p.name, String.ofList value)], none)

/-- What the text behind two dashes gives, and the parameter whose value is still to come. -/
def ofText (ps : List Parameter) (text : List Char) : Option (List Given × Option Parameter) := do
  let name := String.ofList (text.takeWhile (· ≠ '='))
  let p ← ps.find? (·.name == name)
  match p.operand, text.dropWhile (· ≠ '=') with
  | .switch, [] => return ([(name, "")], none)
  | .switch, _ => none
  | _, [] => return ([], some p)
  | _, _ :: value => return ([(name, String.ofList value)], none)

/-- What one argument gives, and the parameter whose value is still to come. -/
def ofArgument (ps : List Parameter) (argument : String) :
    Option (List Given × Option Parameter) :=
  match argument.toList with
  | '-' :: '-' :: text => ofText ps text
  | '-' :: c :: letters => ofLetters ps (c :: letters)
  | _ => none

/-- What some arguments give, in order; two dashes may end them. -/
def ofArguments (ps : List Parameter) : List String → Option (List Given)
  | [] => some []
  | argument :: rest =>
    if argument = "--" ∧ rest = [] then some []
    else
      match ofArgument ps argument, rest with
      | none, _ => none
      | some (given, none), rest => (ofArguments ps rest).map (given ++ ·)
      | some (_, some _), [] => none
      | some (given, some p), value :: rest =>
        if looksLike value then none
        else (ofArguments ps rest).map (given ++ (p.name, value) :: ·)

/-- Whether something is given that is no empty path. -/
def isAllowed (ps : List Parameter) (given : Given) : Bool :=
  !(given.2.isEmpty && ps.any fun p => p.name == given.1 && p.operand = .path)

/-- What some arguments give, if nothing is given twice and no path is empty. -/
def read (ps : List Parameter) (arguments : List String) : Option (List Given) := do
  let given ← ofArguments ps arguments
  if given.all (isAllowed ps) && (firstRepeat? Prod.fst [] given).isNone then some given else none

end Parameter

end WireSchema
