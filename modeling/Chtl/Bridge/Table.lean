/-!
# Tables in the order of their keys

A table is a list of entries with ascending keys. Strings are ordered by their code points.
-/

set_option autoImplicit false
set_option linter.all false

namespace Chtl

abbrev Table (κ α : Type) := List (κ × α)

namespace Table

variable {κ α : Type} [DecidableEq κ] [LT κ] [DecidableLT κ]

def get? (t : Table κ α) (key : κ) : Option α :=
  (t.find? fun entry => decide (entry.1 = key)).map (·.2)

/-- Gives a key the value that `f` makes of its present one. -/
def alter (key : κ) (f : Option α → α) : Table κ α → Table κ α
  | [] => [(key, f none)]
  | (k, a) :: rest =>
    if key = k then (k, f (some a)) :: rest
    else if key < k then (key, f none) :: (k, a) :: rest
    else (k, a) :: alter key f rest

def insert (t : Table κ α) (key : κ) (value : α) : Table κ α :=
  t.alter key fun _ => value

/-- Adds a value at the end of those under a key. -/
def push (t : Table κ (List α)) (key : κ) (value : α) : Table κ (List α) :=
  t.alter key fun present => present.getD [] ++ [value]

/-- The values of a list under their keys, in the order of the list. -/
def group (key : α → κ) (items : List α) : Table κ (List α) :=
  items.foldl (fun t a => t.push (key a) a) []

end Table

end Chtl
