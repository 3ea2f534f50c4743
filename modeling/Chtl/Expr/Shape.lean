import Chtl.Text.Basic

/-!
# Which style values are expressions

A style value is read as an expression only if it looks like one: it holds a sign of logic, a
reference to another element, or arithmetic that plain style text would not contain.
-/

set_option autoImplicit false
set_option linter.all false

namespace Chtl.Expr

open Text

/-- The signs of logic that no plain style value contains. -/
def logicMarks : List (List Char) :=
  [['?'], ['>'], ['<'], ['=', '='], ['!', '='], ['&', '&'], ['|', '|'], ['{', '{']]

/-- Whether `#name.p` or `.name.p` stands at the front. -/
def referenceAt : List Char → Bool
  | mark :: c :: rest =>
    (mark == '#' || mark == '.') && isNameStart c &&
      match rest.dropWhile fun x => isWordChar x || x == '-' with
      | '.' :: p :: _ => isNameStart p
      | _ => false
  | _ => false

/-- Whether a reference stands after a blank, an opening parenthesis or an exclamation mark. -/
def innerReference : List Char → Bool
  | [] => false
  | c :: cs =>
    ((isBlank c || c == '(' || c == '!') && referenceAt cs) || innerReference cs

def holdsReference (cs : List Char) : Bool :=
  referenceAt cs || innerReference cs

/-- The parts of a text between arithmetic signs that have blanks on both sides. -/
def arithmeticParts : List Char → List (List Char)
  | [] => [[]]
  | c :: cs =>
    let carry (parts : List (List Char)) : List (List Char) :=
      match parts with
      | [] => [[c]]
      | part :: more => (c :: part) :: more
    match cs with
    | sign :: after :: rest =>
      if isBlank c && (sign == '-' || sign == '+' || sign == '*' || sign == '/') && isBlank after
      then [] :: arithmeticParts rest
      else carry (arithmeticParts (sign :: after :: rest))
    | rest => carry (arithmeticParts rest)

/-- What one part of an arithmetic text is. -/
inductive Term where
  | measure
  | plain
  | name (word : List Char)
  deriving DecidableEq, Repr

/-- The term that a text consists of, but for parentheses and blanks around it. -/
def term? (cs : List Char) : Option Term :=
  let inner := (cs.dropWhile (· == '(')).dropWhile isBlank
  let closes (rest : List Char) : Bool :=
    ((rest.dropWhile isBlank).dropWhile (· == ')')).isEmpty
  match inner with
  | [] => none
  | c :: rest =>
    if isNameStart c then
      let tail := rest.takeWhile fun x => isWordChar x || x == '-'
      if closes (rest.drop tail.length) then some (.name (c :: tail)) else none
    else
      let number := if c = '-' then rest else inner
      let after := number.dropWhile isDecimalDigit
      let whole := after.length < number.length
      let fraction : Option (List Char) :=
        match after with
        | '.' :: more =>
          let left := more.dropWhile isDecimalDigit
          if left.length < more.length then some left else none
        | _ => none
      let left : Option (List Char) :=
        match fraction with
        | some left => some left
        | none => if whole then some after else none
      match left with
      | none => none
      | some ('%' :: more) => if closes more then some .measure else none
      | some more =>
        let behind := more.dropWhile isAsciiLetter
        if closes behind then some (if behind.length < more.length then .measure else .plain)
        else none

/-- Keywords that stand between slashes in plain style values. -/
def styleKeywords : List (List Char) :=
  ["auto", "span", "none", "inherit", "initial", "unset", "revert"].map String.toList

/-- Arithmetic counts if a part carries a unit, or if a number meets a name. -/
def isArithmetic (cs : List Char) : Bool :=
  let parts := arithmeticParts cs
  decide (1 < parts.length) &&
    match parts.mapM (fun part => term? (trim part)) with
    | none => false
    | some terms =>
      let keyword : Term → Bool
        | .name word => styleKeywords.contains word
        | _ => false
      let named : Term → Bool
        | .name _ => true
        | _ => false
      !(terms.any keyword) &&
        (terms.contains .measure || (terms.any named && terms.contains .plain))

/-- Whether a style value reads like an expression rather than plain style text. -/
def looksLikeExpression (cs : List Char) : Bool :=
  logicMarks.any (contains cs) || holdsReference cs || isArithmetic cs

end Chtl.Expr
