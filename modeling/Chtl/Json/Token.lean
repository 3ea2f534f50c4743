import Chtl.Text.Class

/-!
# Tokens of json text

Strings are read in two steps. First their units are taken as they are written, characters and
numbered codes; then codes are joined to characters. Text that is only passed over needs the first
step alone, so a code without its partner does no harm there.
-/

set_option autoImplicit false
set_option linter.all false

namespace Chtl.Json

open Text

/-- What a string is written with: a character, or a code of sixteen bits by its number. -/
inductive StringUnit where
  | char (c : Char)
  | code (n : Nat)
  deriving DecidableEq, Repr

def hexValue? (c : Char) : Option Nat :=
  if '0' ≤ c ∧ c ≤ '9' then some (c.toNat - 48)
  else if 'a' ≤ c ∧ c ≤ 'f' then some (c.toNat - 87)
  else if 'A' ≤ c ∧ c ≤ 'F' then some (c.toNat - 55)
  else none

def hexCode? (digits : List Char) : Option Nat :=
  (digits.mapM hexValue?).map fun ns => ns.foldl (fun total n => 16 * total + n) 0

/-- The character that a backslash and a letter stand for. -/
def escaped? (c : Char) : Option Char :=
  if c = '"' ∨ c = '\\' ∨ c = '/' then some c
  else if c = 'b' then some '\x08'
  else if c = 'f' then some '\x0c'
  else if c = 'n' then some '\n'
  else if c = 'r' then some '\r'
  else if c = 't' then some '\t'
  else none

/-- The units of a string after its opening quote, with the length through the closing one. -/
def stringTail? : List Char → Option (List StringUnit × Nat)
  | [] => none
  | '"' :: _ => some ([], 1)
  | '\\' :: 'u' :: a :: b :: c :: d :: rest =>
    (hexCode? [a, b, c, d]).bind fun n =>
      (stringTail? rest).map fun (units, length) => (.code n :: units, length + 6)
  | '\\' :: e :: rest =>
    (escaped? e).bind fun c =>
      (stringTail? rest).map fun (units, length) => (.char c :: units, length + 2)
  | c :: rest =>
    if c.toNat < 32 ∨ c = '\\' then none
    else (stringTail? rest).map fun (units, length) => (.char c :: units, length + 1)

def isHighCode (n : Nat) : Bool := decide (0xd800 ≤ n) && decide (n < 0xdc00)

def isLowCode (n : Nat) : Bool := decide (0xdc00 ≤ n) && decide (n < 0xe000)

/-- The characters of a string. A high code and the low code right after it make one character, and
neither stands alone. -/
def characters? : List StringUnit → Option (List Char)
  | [] => some []
  | .char c :: units => (characters? units).map (c :: ·)
  | .code n :: units =>
    if isHighCode n then
      match units with
      | .code m :: more =>
        if isLowCode m then
          (characters? more).map (Char.ofNat (0x10000 + (n - 0xd800) * 0x400 + (m - 0xdc00)) :: ·)
        else none
      | _ => none
    else if isLowCode n then none
    else (characters? units).map (Char.ofNat n :: ·)

/-- The length of the digits at the front, if there are any. -/
def digitsLength? (cs : List Char) : Option Nat :=
  match (cs.takeWhile isAsciiDigit).length with
  | 0 => none
  | n => some n

/-- The length of a whole number at the front: a zero alone, or digits that start with another. -/
def wholeLength? (cs : List Char) : Option Nat :=
  if cs.head? = some '0' then some 1 else digitsLength? cs

/-- The length of a fraction at the front, none being there allowed. -/
def fractionLength? (cs : List Char) : Option Nat :=
  if cs.head? = some '.' then (digitsLength? (cs.drop 1)).map (· + 1) else some 0

/-- The length of an exponent at the front, none being there allowed. -/
def exponentLength? (cs : List Char) : Option Nat :=
  if cs.head? = some 'e' ∨ cs.head? = some 'E' then
    let sign := if (cs.drop 1).head? = some '+' ∨ (cs.drop 1).head? = some '-' then 1 else 0
    (digitsLength? (cs.drop (1 + sign))).map (· + (1 + sign))
  else some 0

/-- The length of a number at the front. -/
def numberLength? (cs : List Char) : Option Nat := do
  let sign := if cs.head? = some '-' then 1 else 0
  let whole := sign + (← wholeLength? (cs.drop sign))
  let part := whole + (← fractionLength? (cs.drop whole))
  pure (part + (← exponentLength? (cs.drop part)))

inductive Token where
  | leftBrace
  | rightBrace
  | leftBracket
  | rightBracket
  | colon
  | comma
  | null
  | bool (value : Bool)
  | number
  | string (units : List StringUnit)
  deriving DecidableEq, Repr

/-- The characters that may stand between tokens. -/
def isGap (c : Char) : Bool := c == ' ' || c == '\t' || c == '\n' || c == '\r'

/-- The token at the front with its length. -/
def tokenAhead? (cs : List Char) : Option (Token × Nat) :=
  match cs with
  | '{' :: _ => some (.leftBrace, 1)
  | '}' :: _ => some (.rightBrace, 1)
  | '[' :: _ => some (.leftBracket, 1)
  | ']' :: _ => some (.rightBracket, 1)
  | ':' :: _ => some (.colon, 1)
  | ',' :: _ => some (.comma, 1)
  | '"' :: rest => (stringTail? rest).map fun (units, length) => (.string units, length + 1)
  | 'n' :: 'u' :: 'l' :: 'l' :: _ => some (.null, 4)
  | 't' :: 'r' :: 'u' :: 'e' :: _ => some (.bool true, 4)
  | 'f' :: 'a' :: 'l' :: 's' :: 'e' :: _ => some (.bool false, 5)
  | _ => (numberLength? cs).map fun length => (.number, length)

/-- All tokens of a text. -/
def tokens? (cs : List Char) : Option (List Token) :=
  match cs with
  | [] => some []
  | c :: rest =>
    if isGap c then tokens? rest
    else
      match tokenAhead? (c :: rest) with
      | none => none
      | some (token, length) => (tokens? (rest.drop (length - 1))).map (token :: ·)
termination_by cs.length
decreasing_by all_goals simp only [List.length_cons, List.length_drop]; omega

end Chtl.Json
