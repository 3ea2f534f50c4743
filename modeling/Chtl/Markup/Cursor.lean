import Chtl.Fragment.Scan

/-!
# Reading positions in markup

A cursor is the text still to be read, its offset and the character before it. What stands at a
cursor is measured in characters; offsets become source spans through the origin of the text.
-/

set_option autoImplicit false
set_option linter.all false

namespace Chtl.Markup

open Text

/-- Where the offsets of a text lead: through the fragments of a unit, or by a fixed distance. -/
inductive Origin where
  | markup (scanned : Scanned)
  | source (base : Nat)
  deriving DecidableEq, Repr

def Origin.toSource : Origin → Nat → Nat
  | markup scanned, offset => scanned.toSource offset
  | source base, offset => base + offset

def Origin.span : Origin → Nat → Nat → Span
  | markup scanned, start, stop => scanned.spanToSource ⟨start, stop⟩
  | source base, start, stop => Span.shift ⟨start, stop⟩ base

structure Cursor where
  before : Option Char := none
  offset : Nat := 0
  rest : List Char
  deriving DecidableEq, Repr

namespace Cursor

/-- Goes on by `n` characters. -/
def advance (c : Cursor) (n : Nat) : Cursor :=
  let taken := c.rest.take n
  ⟨taken.getLast?.or c.before, c.offset + size taken, c.rest.drop n⟩

def peek? (c : Cursor) : Option Char := c.rest.head?

def atEnd (c : Cursor) : Bool := c.rest.isEmpty

end Cursor

/-- The length of a comment that blanks may hide. The end of a block comment may share the star of
its beginning. -/
def hiddenCommentLength? : List Char → Option Nat
  | '/' :: '/' :: cs => some (2 + lineLength cs)
  | '/' :: '*' :: cs => some (lengthThrough ['*', '/'] ('/' :: '*' :: cs))
  | _ => none

/-- The length of the blanks and comments at the front of a text. -/
def triviaLength (cs : List Char) : Nat :=
  match cs with
  | [] => 0
  | c :: rest =>
    if isBlank c then 1 + triviaLength rest
    else
      match hiddenCommentLength? (c :: rest) with
      | some n => 1 + (n - 1) + triviaLength (rest.drop (n - 1))
      | none => 0
termination_by cs.length
decreasing_by all_goals simp only [List.length_cons, List.length_drop]; omega

/-- The name at the front of a text, if there is one. -/
def name? : List Char → Option (List Char)
  | [] => none
  | c :: rest => if isNameStart c then some (c :: rest.takeWhile isNameChar) else none

/-- Whether a quote may open a string: right after a word character it is an apostrophe. -/
def atTokenStart (before : Option Char) : Bool :=
  match before with
  | none => true
  | some c => !(isAlphanumeric c || c == '_' || c == '\\')

/-- The length of a quoted string after its opening quote; `escaped` says that a backslash stands
before the text. -/
def quotedLength (quote : Char) : (escaped : Bool) → List Char → Nat
  | _, [] => 0
  | true, _ :: cs => 1 + quotedLength quote false cs
  | false, c :: cs =>
    if c = '\\' then 1 + quotedLength quote true cs
    else if c = quote then 1
    else 1 + quotedLength quote false cs

/-- The length of the text before the first of the `stops` outside parentheses and brackets. Quoted
strings and operands in double braces are passed over whole. -/
def rawLength (stops : List Char) (before : Option Char) (depth : Nat) (cs : List Char) : Nat :=
  match cs with
  | [] => 0
  | c :: rest =>
    let operand := c == '{' && rest.head? == some '{'
    if depth = 0 ∧ stops.contains c ∧ !operand then 0
    else
      let along :=
        if (c = '"' ∨ c = '\x27') ∧ atTokenStart before then quotedLength c false rest
        else if operand then lengthThrough ['}', '}'] (c :: rest) - 1
        else 0
      let deeper :=
        if c = '(' ∨ c = '[' then depth + 1 else if c = ')' ∨ c = ']' then depth - 1 else depth
      1 + along + rawLength stops (c :: rest.take along).getLast? deeper (rest.drop along)
termination_by cs.length
decreasing_by simp only [List.length_cons, List.length_drop]; omega

/-- The length of a body up to the brace that closes it, `depth` inner braces being open. -/
def balancedLength? (depth : Nat) (cs : List Char) : Option Nat :=
  match cs with
  | [] => none
  | c :: rest =>
    if c = '"' ∨ c = '\x27' then
      let n := quotedLength c false rest
      (balancedLength? depth (rest.drop n)).map (· + (1 + n))
    else if c = '{' then (balancedLength? (depth + 1) rest).map (· + 1)
    else if c = '}' then
      if depth = 0 then some 0 else (balancedLength? (depth - 1) rest).map (· + 1)
    else (balancedLength? depth rest).map (· + 1)
termination_by cs.length
decreasing_by all_goals simp only [List.length_cons, List.length_drop]; omega

/-- What a message shows of the text at hand: its first character and the name characters after. -/
def foundText : List Char → List Char
  | [] => []
  | c :: rest => c :: rest.takeWhile isNameChar

end Chtl.Markup
