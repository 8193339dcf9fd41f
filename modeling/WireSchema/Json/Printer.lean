import WireSchema.Decimal.Style
import WireSchema.Json.Basic
import WireSchema.Text.Quoted

/-! JSON documents as text, on one line without blanks, or with each member and item on a line of
its own. -/

namespace WireSchema.Json

/-- Floats from `0.00001` to below `10 ^ 16` have a point, the others an exponent with its sign. -/
def realStyle : Decimal.Style := ⟨-5, 15, .even, true⟩

def Number.print : Number → String
  | integer n => toString n
  | real x => realStyle.write Binary64.format x.negative x.magnitude

mutual

/-- The document on one line. -/
def print : Json → String
  | null => "null"
  | bool b => toString b
  | number n => n.print
  | string s => Text.quoteJson s
  | array items => "[" ++ ",".intercalate (printItems items) ++ "]"
  | object members => "\x7b" ++ ",".intercalate (printMembers members) ++ "\x7d"

def printItems : List Json → List String
  | [] => []
  | v :: rest => v.print :: printItems rest

def printMembers : List (String × Json) → List String
  | [] => []
  | (name, v) :: rest => (Text.quoteJson name ++ ":" ++ v.print) :: printMembers rest

end

/-- A line break and the blanks that begin the next line. -/
def newLine (depth : Nat) : String := "\n" ++ String.ofList (List.replicate (2 * depth) ' ')

/-- Some lines between brackets, indented one step further than the brackets. -/
def block (opening closing : String) (depth : Nat) (lines : List String) : String :=
  if lines.isEmpty then opening ++ closing
  else
    opening ++ newLine (depth + 1) ++ ("," ++ newLine (depth + 1)).intercalate lines ++
      newLine depth ++ closing

mutual

/-- The document on several lines, the first of which is at a depth. -/
def prettyAt : Nat → Json → String
  | depth, array items => block "[" "]" depth (prettyItems (depth + 1) items)
  | depth, object members => block "\x7b" "\x7d" depth (prettyMembers (depth + 1) members)
  | _, null => "null"
  | _, bool b => toString b
  | _, number n => n.print
  | _, string s => Text.quoteJson s

def prettyItems : Nat → List Json → List String
  | _, [] => []
  | depth, v :: rest => prettyAt depth v :: prettyItems depth rest

def prettyMembers : Nat → List (String × Json) → List String
  | _, [] => []
  | depth, (name, v) :: rest =>
    (Text.quoteJson name ++ ": " ++ prettyAt depth v) :: prettyMembers depth rest

end

def pretty (j : Json) : String := prettyAt 0 j

end WireSchema.Json
