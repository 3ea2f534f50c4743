import Chtl.Text.Basic

/-!
# Strings, comments and brackets in scripts

Look-ahead over the code of a page. Strings with any of the three quotes and comments are passed
over whole; lengths are in characters.
-/

set_option autoImplicit false
set_option linter.all false

namespace Chtl.Script

open Text

def isWordStart (c : Char) : Bool := isAsciiLetter c || c == '_' || c == '$'

def isWordChar (c : Char) : Bool := isAsciiAlnum c || c == '_' || c == '$'

/-- The length of the blanks at the front. -/
def blankLength (cs : List Char) : Nat := (cs.takeWhile isBlank).length

/-- The length of a string or template after its opening quote. -/
def stringTailLength (quote : Char) : List Char → Nat
  | [] => 0
  | c :: cs =>
    if c = '\\' then
      match cs with
      | [] => 1
      | _ :: more => 1 + (1 + stringTailLength quote more)
    else if c = quote then 1
    else 1 + stringTailLength quote cs

/-- The length of a string, template or comment at the front. -/
def literalLength? : List Char → Option Nat
  | [] => none
  | c :: cs =>
    if c = '"' ∨ c = '\x27' ∨ c = '\x60' then some (1 + stringTailLength c cs)
    else if c = '/' then
      match cs with
      | '/' :: more => some (2 + lineLength more)
      | '*' :: more => some (2 + lengthThrough ['*', '/'] more)
      | _ => none
    else none

def isOpener (c : Char) : Bool := c == '(' || c == '[' || c == '{'

def isCloser (c : Char) : Bool := c == ')' || c == ']' || c == '}'

/-- The length of the text up to and with the brace that brings `depth` open braces back to none. -/
def groupLength? (depth : Nat) (cs : List Char) : Option Nat :=
  match cs with
  | [] => none
  | c :: rest =>
    match literalLength? (c :: rest) with
    | some n => (groupLength? depth (rest.drop (n - 1))).map (· + (1 + (n - 1)))
    | none =>
      if c = '{' then (groupLength? (depth + 1) rest).map (· + 1)
      else if c = '}' then
        if depth ≤ 1 then some 1 else (groupLength? (depth - 1) rest).map (· + 1)
      else (groupLength? depth rest).map (· + 1)
termination_by cs.length
decreasing_by all_goals simp only [List.length_cons, List.length_drop]; omega

/-- The length of the brace group at the front. -/
def bracedLength? (cs : List Char) : Option Nat :=
  if cs.head? = some '{' then groupLength? 0 cs else none

/-- Puts characters in front of the first part. -/
def consPart (taken : List Char) : List (List Char) → List (List Char)
  | [] => [taken]
  | part :: parts => (taken ++ part) :: parts

/-- The parts of a text between the separators that stand outside all brackets. -/
def splitTopLevel (separator : Char) (depth : Int) (cs : List Char) : List (List Char) :=
  match cs with
  | [] => [[]]
  | c :: rest =>
    match literalLength? (c :: rest) with
    | some n =>
      consPart (c :: rest.take (n - 1)) (splitTopLevel separator depth (rest.drop (n - 1)))
    | none =>
      if isOpener c then consPart [c] (splitTopLevel separator (depth + 1) rest)
      else if isCloser c then consPart [c] (splitTopLevel separator (depth - 1) rest)
      else if c = separator ∧ depth = 0 then [] :: splitTopLevel separator depth rest
      else consPart [c] (splitTopLevel separator depth rest)
termination_by cs.length
decreasing_by all_goals simp only [List.length_cons, List.length_drop]; omega

/-- Parts with the offsets where they start; a separator takes one byte. -/
def locate (offset : Nat) : List (List Char) → List (Nat × List Char)
  | [] => []
  | part :: parts => (offset, part) :: locate (offset + size part + 1) parts

/-- The parts of a text at top level, with their offsets. -/
def partsAt (separator : Char) (offset : Nat) (cs : List Char) : List (Nat × List Char) :=
  locate offset (splitTopLevel separator 0 cs)

/-- The length of an initializer: up to a semicolon or line feed outside all brackets. -/
def initializerLength (depth : Int) (cs : List Char) : Nat :=
  match cs with
  | [] => 0
  | c :: rest =>
    match literalLength? (c :: rest) with
    | some n => 1 + (n - 1) + initializerLength depth (rest.drop (n - 1))
    | none =>
      if isOpener c then 1 + initializerLength (depth + 1) rest
      else if isCloser c then 1 + initializerLength (depth - 1) rest
      else if (c = ';' ∨ c = '\n') ∧ depth ≤ 0 then 0
      else 1 + initializerLength depth rest
termination_by cs.length
decreasing_by all_goals simp only [List.length_cons, List.length_drop]; omega

/-- The last character that is not blank, or the earlier one. -/
def lastSolid (earlier : Option Char) (cs : List Char) : Option Char :=
  (cs.reverse.find? fun c => !isBlank c).or earlier

/-- The length of a handler in a binding statement. Outside brackets it ends at a semicolon, at a
line feed unless a comma came last, at a comma that another clause follows, and at a closing
bracket. -/
def clauseLength (last : Option Char) (depth : Nat) (cs : List Char) : Nat :=
  match cs with
  | [] => 0
  | c :: rest =>
    match literalLength? (c :: rest) with
    | some n =>
      1 + (n - 1) +
        clauseLength (lastSolid last (c :: rest.take (n - 1))) depth (rest.drop (n - 1))
    | none =>
      let ends : Bool :=
        isCloser c || c == ';' || (c == '\n' && last != some ',') ||
          (c == ',' &&
            let next := rest.drop (blankLength rest)
            startsWith next ['&', '-', '>'] || startsWith next ['{', '{'])
      if depth = 0 && ends then 0
      else
        let deeper := if isOpener c then depth + 1 else if isCloser c then depth - 1 else depth
        1 + clauseLength (lastSolid last [c]) deeper rest
termination_by cs.length
decreasing_by all_goals simp only [List.length_cons, List.length_drop]; omega

end Chtl.Script
