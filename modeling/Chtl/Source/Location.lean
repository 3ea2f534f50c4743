import Chtl.Text.Basic

/-!
# Lines and columns

Offsets become pairs of a line and a column, both counted from 1, columns in bytes. An offset past
the end stands for the end.
-/

set_option autoImplicit false
set_option linter.all false

namespace Chtl

structure Location where
  line : Nat
  column : Nat
  deriving DecidableEq, Repr, Inhabited

namespace Location

/-- The location `offset` bytes further on, when the text read next starts at `here`. -/
def advance (here : Location) : (offset : Nat) → List Char → Location
  | 0, _ => here
  | _ + 1, [] => here
  | n + 1, c :: cs =>
    if n + 1 < c.utf8Size then ⟨here.line, here.column + (n + 1)⟩
    else if c = '\n' then advance ⟨here.line + 1, 1⟩ n cs
    else advance ⟨here.line, here.column + c.utf8Size⟩ (n + 1 - c.utf8Size) cs

/-- The line and column of a byte offset in a source. -/
def ofOffset (source : List Char) (offset : Nat) : Location :=
  advance ⟨1, 1⟩ offset source

end Location

namespace Text

/-- Drops one carriage return at the end. -/
def dropReturn (line : List Char) : List Char :=
  if line.getLast? = some '\r' then line.dropLast else line

/-- The lines of a text. A line feed ends a line and takes one carriage return before it along; the
last line needs none, and a line feed at the very end opens no further line. -/
def lines (cs : List Char) : List (List Char) :=
  match (splitOnChar (· == '\n') cs).reverse with
  | [] => []
  | last :: closed =>
    (closed.map dropReturn).reverse ++ if last.isEmpty then [] else [last]

end Text

end Chtl
