import Chtl.Fragment.Basic

/-!
# Cutting a source into pieces

The pieces of a source are markup and blocks, in order; joined again they give the source back.
Finding them needs no knowledge of what blocks contain: only quotes, comments and the depth of
braces are followed. Each look-ahead answers with a number of characters.
-/

set_option autoImplicit false
set_option linter.all false

namespace Chtl

open Text

/-- A stretch of a source. The opening of a block is its keyword, blanks and the brace; the brace
that closes it is not part of the body. -/
inductive Piece where
  | markup (text : List Char)
  | block (kind : FragmentKind) (opening body : List Char)
  deriving DecidableEq, Repr

namespace Piece

/-- The characters of the source that the piece takes up. -/
def source : Piece → List Char
  | markup text => text
  | block _ opening body => opening ++ (body ++ ['}'])

/-- A character that may not touch a block keyword. -/
def touchesKeyword (c : Char) : Bool :=
  isAsciiAlnum c || c == '_' || c == '-' || c == '$' || c == '@' || c == '.' || c == '#'

/-- A quote opens a string only where a token may begin, so the apostrophe of `It's` is text. -/
def opensString (previous : Option Char) : Bool :=
  match previous with
  | none => true
  | some c => !(isAsciiAlnum c || c == '_' || c == '\\')

def opensComment (previous : Option Char) : Bool :=
  match previous with
  | none => true
  | some c => isAsciiBlank c || c == '{' || c == '}' || c == ';'

/-- The length of a comment in markup. A line comment stops before the line feed, and a comment that
is never closed runs to the end. -/
def commentLength? : List Char → Option Nat
  | '/' :: '/' :: cs => some (2 + lineLength cs)
  | '-' :: '-' :: cs => some (2 + lineLength cs)
  | '/' :: '*' :: cs => some (2 + lengthThrough ['*', '/'] cs)
  | _ => none

/-- The length of a quoted string after its opening quote, the closing one included. A backslash
takes the next character along, and a string that is never closed runs to the end. -/
def stringLength (quote : Char) : List Char → Nat
  | [] => 0
  | '\\' :: [] => 1
  | '\\' :: _ :: cs => 2 + stringLength quote cs
  | c :: cs => if c = quote then 1 else 1 + stringLength quote cs

/-- The kind and the opening's length of a block that begins here, its keyword standing alone. -/
def opening? (previous : Option Char) (cs : List Char) : Option (FragmentKind × Nat) :=
  if previous.any touchesKeyword then none
  else
    let word : Option (FragmentKind × List Char) :=
      match after? "style".toList cs with
      | some rest => some (.style, rest)
      | none => (after? "script".toList cs).map (FragmentKind.script, ·)
    match word with
    | none => none
    | some (kind, rest) =>
      if rest.head?.any touchesKeyword then none
      else
        let inner := rest.dropWhile isAsciiBlank
        if inner.head? = some '{' then some (kind, cs.length - inner.length + 1) else none

/-- The length of a block's body: the characters before the brace that closes it, `depth` inner
braces being open. Strings and comments are passed over, line comments in scripts only. -/
def bodyLength? (kind : FragmentKind) (depth : Nat) (cs : List Char) : Option Nat :=
  match cs with
  | [] => none
  | c :: rest =>
    if c = '"' ∨ c = '\x27' then
      let n := stringLength c rest
      (bodyLength? kind depth (rest.drop n)).map (· + (1 + n))
    else if c = '/' ∧ rest.head? = some '*' then
      let n := lengthThrough ['*', '/'] (rest.drop 1)
      (bodyLength? kind depth (rest.drop (1 + n))).map (· + (2 + n))
    else if c = '/' ∧ kind = .script ∧ rest.head? = some '/' then
      let n := lineLength rest
      (bodyLength? kind depth (rest.drop n)).map (· + (1 + n))
    else if c = '{' then (bodyLength? kind (depth + 1) rest).map (· + 1)
    else if c = '}' then
      if depth = 0 then some 0 else (bodyLength? kind (depth - 1) rest).map (· + 1)
    else (bodyLength? kind depth rest).map (· + 1)
termination_by cs.length
decreasing_by all_goals simp only [List.length_cons, List.length_drop]; omega

/-- Puts markup in front of pieces, as part of the first one if that is markup too. -/
def consMarkup (text : List Char) : List Piece → List Piece
  | markup more :: rest => markup (text ++ more) :: rest
  | pieces => if text.isEmpty then pieces else markup text :: pieces

/-- A block that is never closed, by its kind and the offset of its keyword. -/
structure Unclosed where
  kind : FragmentKind
  start : Nat
  deriving DecidableEq, Repr

/-- Cuts a text that stands at `offset` after the character `previous`. -/
def cutFrom (previous : Option Char) (offset : Nat) (cs : List Char) :
    Except Unclosed (List Piece) :=
  match cs with
  | [] => .ok []
  | c :: rest =>
    let pass (n : Nat) : Except Unclosed (List Piece) :=
      let taken := c :: rest.take n
      (cutFrom taken.getLast? (offset + size taken) (rest.drop n)).map (consMarkup taken)
    if (c = '"' ∨ c = '\x27') ∧ opensString previous then pass (stringLength c rest)
    else
      let comment : Option Nat :=
        if opensComment previous then commentLength? (c :: rest) else none
      match comment with
      | some n => pass (n - 1)
      | none =>
        match opening? previous (c :: rest) with
        | none => pass 0
        | some (kind, m) =>
          let opening := c :: rest.take (m - 1)
          let inner := rest.drop (m - 1)
          match bodyLength? kind 0 inner with
          | none => .error ⟨kind, offset⟩
          | some n =>
            let body := inner.take n
            (cutFrom (some '}') (offset + (size opening + size body + 1)) (inner.drop (n + 1))).map
              (block kind opening body :: ·)
termination_by cs.length
decreasing_by all_goals simp only [List.length_cons, List.length_drop]; omega

/-- The pieces of a source. -/
def cut (source : List Char) : Except Unclosed (List Piece) :=
  cutFrom none 0 source

end Piece

end Chtl
