/-! Tables: lists of keyed values in ascending order of their keys, each key once. The later of two
values given for a key is kept. -/

namespace WireSchema

namespace Table

variable {κ α β : Type} [LT κ] [DecidableLT κ] [BEq κ]

/-- Puts a value at its key, in place of the one that was there. -/
def insert (key : κ) (value : α) : List (κ × α) → List (κ × α)
  | [] => [(key, value)]
  | (k, v) :: rest =>
    if key < k then (key, value) :: (k, v) :: rest
    else if key == k then (key, value) :: rest
    else (k, v) :: insert key value rest

/-- The table of some pairs, of which the later ones win. -/
def ofPairs (pairs : List (κ × α)) : List (κ × α) :=
  pairs.foldl (fun table (key, value) => insert key value table) []

def get? (key : κ) (table : List (κ × α)) : Option α := table.lookup key

def erase (key : κ) (table : List (κ × α)) : List (κ × α) := table.filter (!·.1 == key)

end Table

/-- The place of the last member of a list that satisfies a test. -/
def lastIndex? {α : Type} (p : α → Bool) : List α → Option Nat
  | [] => none
  | a :: rest =>
    match lastIndex? p rest with
    | some i => some (i + 1)
    | none => if p a then some 0 else none

/-- The first member of a list whose key an earlier member has too, or one of the keys `seen`. -/
def firstRepeat? {α κ : Type} [BEq κ] (key : α → κ) : List κ → List α → Option α
  | _, [] => none
  | seen, a :: rest =>
    if seen.contains (key a) then some a else firstRepeat? key (key a :: seen) rest

end WireSchema
