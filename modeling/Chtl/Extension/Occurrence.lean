import Chtl.Script.Lexical
import Chtl.Source.Span

/-!
# Occurrences of a keyword

An extension claims a keyword. The keyword occurs in a script where it stands as a whole word and
brackets with its arguments follow; strings and comments are passed over.
-/

set_option autoImplicit false
set_option linter.all false

namespace Chtl.Extension

open Text

/-- The length of the text up to and with the closing bracket that brings `depth` open ones back to
none. Only brackets of this one kind count. -/
def closingLength? (left right : Char) (depth : Nat) (cs : List Char) : Option Nat :=
  match cs with
  | [] => none
  | c :: rest =>
    match Script.literalLength? (c :: rest) with
    | some n => (closingLength? left right depth (rest.drop (n - 1))).map (· + (1 + (n - 1)))
    | none =>
      if c = left then (closingLength? left right (depth + 1) rest).map (· + 1)
      else if c = right then
        if depth ≤ 1 then some 1 else (closingLength? left right (depth - 1) rest).map (· + 1)
      else (closingLength? left right depth rest).map (· + 1)
termination_by cs.length
decreasing_by all_goals simp only [List.length_cons, List.length_drop]; omega

/-- The length of the arguments at the front, brackets included. -/
def argumentsLength? (cs : List Char) : Option Nat :=
  match cs.head? with
  | some '(' => closingLength? '(' ')' 0 cs
  | some '{' => closingLength? '{' '}' 0 cs
  | _ => none

/-- One use of a keyword in a script. -/
structure Occurrence where
  /-- What stands before the keyword. -/
  before : List Char
  /-- From the keyword to the closing bracket. -/
  text : List Char
  /-- What the brackets hold. -/
  body : List Char
  deriving DecidableEq, Repr

namespace Occurrence

/-- The extent of the occurrence in the script. -/
def range (o : Occurrence) : Span := ⟨size o.before, size o.before + size o.text⟩

/-- The number of characters of the script that the occurrence uses up. -/
def length (o : Occurrence) : Nat := o.before.length + o.text.length

/-- The arguments: the parts of the body between commas outside all brackets, trimmed. Empty parts
are left out. -/
def args (o : Occurrence) : List (List Char) :=
  ((Script.splitTopLevel ',' 0 o.body).map trim).filter fun arg => !arg.isEmpty

/-- The occurrence with more text before it. -/
def behind (text : List Char) (o : Occurrence) : Occurrence := { o with before := text ++ o.before }

end Occurrence

/-- The occurrence that begins at the front, if the keyword stands there as a whole word. -/
def occurrenceHere? (keyword cs : List Char) : Option Occurrence :=
  match after? keyword cs with
  | none => none
  | some rest =>
    if rest.head?.any Script.isWordChar then none
    else
      let blanks := rest.takeWhile isAsciiBlank
      let arguments := rest.drop blanks.length
      (argumentsLength? arguments).map fun n =>
        ⟨[], keyword ++ blanks ++ arguments.take n, (arguments.take (n - 1)).drop 1⟩

/-- The first occurrence in a text that follows `previous`. -/
def occurrenceAfter? (keyword : List Char) (previous : Option Char) (cs : List Char) :
    Option Occurrence :=
  match cs with
  | [] => none
  | c :: rest =>
    match Script.literalLength? (c :: rest) with
    | some n =>
      let passed := c :: rest.take (n - 1)
      (occurrenceAfter? keyword passed.getLast? (rest.drop (n - 1))).map (·.behind passed)
    | none =>
      let here :=
        if previous.any Script.isWordChar then none else occurrenceHere? keyword (c :: rest)
      here.or ((occurrenceAfter? keyword (some c) rest).map (·.behind [c]))
termination_by cs.length
decreasing_by all_goals simp only [List.length_cons, List.length_drop]; omega

/-- The first occurrence of a keyword in a script. An empty keyword occurs nowhere. -/
def occurrence? (keyword script : List Char) : Option Occurrence :=
  if keyword.isEmpty then none else occurrenceAfter? keyword none script

end Chtl.Extension
