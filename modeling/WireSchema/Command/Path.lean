/-! Paths as text, and folders of files for the commands to work in. A path is a sequence of names
with slashes between them; empty names and single dots count for nothing. -/

namespace WireSchema

namespace Path

/-- The names that a path goes through. -/
def names (path : String) : List String :=
  (path.splitOn "/").filter fun name => name ≠ "" ∧ name ≠ "."

/-- The name that a path leads to. -/
def lastName? (path : String) : Option String :=
  match (names path).getLast? with
  | some ".." => none
  | name => name

/-- What follows the last dot of the last name, unless the name begins with that dot. -/
def extension? (path : String) : Option String := do
  let letters := (← lastName? path).toList.reverse
  match letters.dropWhile (· ≠ '.') with
  | _ :: _ :: _ => return String.ofList (letters.takeWhile (· ≠ '.')).reverse
  | _ => none

/-- A path whose last name has an extension, with another in place of its own. -/
def withExtension (path extension : String) : String :=
  let kept := path.length - ((extension? path).map fun own => own.length + 1).getD 0
  String.ofList (path.toList.take kept) ++ "." ++ extension

/-- The place of a file in a folder: the names on the way to it. Paths from the root, paths that go
up, and paths that end as folders do lead to no file of the folder. -/
def place? (path : String) : Option (List String) :=
  let written := path.splitOn "/"
  if written.head? = some "" ∨ written.contains ".." ∨ written.getLast? = some "" ∨
      written.getLast? = some "." then none
  else some (names path)

end Path

/-- Files by their places. -/
structure Folder where
  files : List (List String × List UInt8)

namespace Folder

variable (folder : Folder)

def read? (path : String) : Option (List UInt8) := do
  folder.files.lookup (← Path.place? path)

/-- Whether some file lies below a place. -/
def isFolder (place : List String) : Bool :=
  place.isEmpty || folder.files.any fun (file, _) => place.isPrefixOf file && place ≠ file

/-- The folder with a file written anew. The folder that the file goes to must be there, and no
folder may have its name. -/
def write? (path : String) (bytes : List UInt8) : Option Folder := do
  let place ← Path.place? path
  if folder.isFolder place.dropLast && !folder.isFolder place then
    some ⟨folder.files.filter (·.1 ≠ place) ++ [(place, bytes)]⟩
  else none

end Folder

end WireSchema
