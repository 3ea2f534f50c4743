import Chtl.Decimal.Numeral
import Chtl.Text.Basic

/-!
# Literals in the page's code

Texts between single quotes, and operands that lose their double braces.
-/

set_option autoImplicit false
set_option linter.all false

namespace Chtl.Script

open Text

/-- How one character is written between single quotes. A carriage return is left out. -/
def escapeChar (c : Char) : List Char :=
  if c = '\\' then ['\\', '\\']
  else if c = '\x27' then ['\\', '\x27']
  else if c = '\n' then ['\\', 'n']
  else if c = '\r' then []
  else [c]

def escapeString (s : String) : String :=
  String.ofList (s.toList.flatMap escapeChar)

/-- A text as a literal. -/
def singleQuoted (s : String) : String := "'" ++ escapeString s ++ "'"

/-- The length of an operand's code: up to the first place where only blanks stand before the
closing braces, all on one line. -/
def operandLength? : List Char → Option Nat
  | [] => none
  | c :: cs =>
    if startsWith ((c :: cs).dropWhile isBlank) ['}', '}'] then some 0
    else if c = '\n' then none
    else (operandLength? cs).map (· + 1)

/-- The code of an operand in double braces at the front, with the length of the whole. -/
def operand? : List Char → Option (List Char × Nat)
  | '{' :: '{' :: rest =>
    let lead := (rest.takeWhile isBlank).length
    let inner := rest.drop lead
    (operandLength? inner).map fun n =>
      let trail := ((inner.drop n).takeWhile isBlank).length
      (inner.take n, 2 + lead + n + trail + 2)
  | _ => none

/-- Takes the double braces off every operand. -/
def unwrapOperands (cs : List Char) : List Char :=
  match cs with
  | [] => []
  | c :: rest =>
    match operand? (c :: rest) with
    | some (code, n) => code ++ unwrapOperands (rest.drop (n - 1))
    | none => c :: unwrapOperands rest
termination_by cs.length
decreasing_by all_goals simp only [List.length_cons, List.length_drop]; omega

def unwrapped (expression : String) : String :=
  String.ofList (unwrapOperands expression.toList)

/-- The code of a style value. Numerals and quoted texts are code already. -/
def styleLiteral (value : String) : String :=
  let cs := value.toList
  if (Decimal.float? cs).isSome || cs.head?.any (fun c => c == '\x27' || c == '"' || c == '\x60')
  then value
  else singleQuoted value

end Chtl.Script
