/-!
# Style maps

The properties of one element in the order in which they are written out. Setting a property that
is there keeps its place.
-/

set_option autoImplicit false
set_option linter.all false

namespace Chtl

structure StyleMap where
  entries : List (String × String) := []
  deriving DecidableEq, Repr, Inhabited

namespace StyleMap

def empty : StyleMap := ⟨[]⟩

def get? (m : StyleMap) (key : String) : Option String :=
  (m.entries.find? (·.1 == key)).map (·.2)

def contains (m : StyleMap) (key : String) : Bool :=
  (m.get? key).isSome

/-- Gives the first entry with the key a new value. -/
def overwrite (key value : String) : List (String × String) → List (String × String)
  | [] => []
  | entry :: rest =>
    if entry.1 = key then (entry.1, value) :: rest else entry :: overwrite key value rest

/-- Overwrites in place, or appends. -/
def set (m : StyleMap) (key value : String) : StyleMap :=
  if m.contains key then ⟨overwrite key value m.entries⟩ else ⟨m.entries ++ [(key, value)]⟩

/-- Puts a new entry at a position, or at the end if there are fewer entries. -/
def insertAt (m : StyleMap) (index : Nat) (key value : String) : StyleMap :=
  ⟨m.entries.take index ++ (key, value) :: m.entries.drop index⟩

def ofList (pairs : List (String × String)) : StyleMap :=
  pairs.foldl (fun m p => m.set p.1 p.2) empty

def size (m : StyleMap) : Nat := m.entries.length

def isEmpty (m : StyleMap) : Bool := m.entries.isEmpty

/-- The text of a style attribute with these entries. -/
def styleText (m : StyleMap) : String :=
  String.join (m.entries.map fun (k, v) => k ++ ": " ++ v ++ "; ")

end StyleMap

end Chtl
