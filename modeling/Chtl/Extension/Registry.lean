import Chtl.Extension.Occurrence
import Chtl.Text.Quoted

/-!
# Extensions and their registry

Extensions change a script before it is read. Each one in turn replaces the occurrences of its
keyword; what it puts there is not searched for the same keyword again, but extensions registered
later see it.
-/

set_option autoImplicit false
set_option linter.all false

namespace Chtl

open Text

structure Extension where
  keyword : String
  /-- The text that takes the place of an occurrence, or why there is none. -/
  expand : Extension.Occurrence → Except String String

structure ExtensionError where
  keyword : String
  reason : String
  span : Span
  deriving DecidableEq, Repr

def ExtensionError.message (e : ExtensionError) : String :=
  "extension `" ++ e.keyword ++ "` failed: " ++ e.reason

namespace Extension

/-- Expands the occurrences in a script of which `offset` bytes stand before. Faults are placed in
the script as it has become so far. -/
def expandFrom (x : Extension) (offset : Nat) (cs : List Char) :
    Except ExtensionError (List Char) :=
  match cs with
  | [] => .ok []
  | c :: rest =>
    match occurrence? x.keyword.toList (c :: rest) with
    | none => .ok (c :: rest)
    | some o =>
      match x.expand o with
      | .error reason => .error ⟨x.keyword, reason, o.range.shift offset⟩
      | .ok expansion =>
        let done := o.before ++ expansion.toList
        match x.expandFrom (offset + size done) (rest.drop (o.length - 1)) with
        | .error e => .error e
        | .ok more => .ok (done ++ more)
termination_by cs.length
decreasing_by all_goals simp only [List.length_cons, List.length_drop]; omega

end Extension

/-- Extensions in the order of their registration, one for each keyword. -/
structure Extensions where
  entries : List Extension := []

namespace Extensions

/-- Adds an extension at the end. It takes the place of an earlier one with the same keyword. -/
def register (r : Extensions) (x : Extension) : Extensions :=
  ⟨r.entries.filter (fun y => y.keyword != x.keyword) ++ [x]⟩

def get? (r : Extensions) (keyword : String) : Option Extension :=
  r.entries.find? fun x => x.keyword == keyword

def keywords (r : Extensions) : List String := r.entries.map (·.keyword)

def size (r : Extensions) : Nat := r.entries.length

def isEmpty (r : Extensions) : Bool := r.entries.isEmpty

/-- The keywords as a host shows them. -/
def display (r : Extensions) : String := shownList r.keywords

/-- Expands a script that starts at source offset `base`, one extension after the other. -/
def apply (r : Extensions) (script : List Char) (base : Nat) :
    Except ExtensionError (List Char) :=
  r.entries.foldlM (fun text x => x.expandFrom base text) script

end Extensions

end Chtl
