import Chtl.Decimal.Read
import Chtl.Expr.Basic
import Chtl.Text.Basic

/-!
# Tokens of expressions

The text of an expression is a sequence of tokens with blanks between them. Reading one token
answers with the token and the number of characters it takes up after its first one.
-/

set_option autoImplicit false
set_option linter.all false

namespace Chtl.Expr

open Text

inductive Sign where
  | ge
  | le
  | eq
  | ne
  | and
  | or
  | gt
  | lt
  | not
  | question
  | colon
  | plus
  | minus
  | times
  | divide
  deriving DecidableEq, Repr

inductive Lexeme where
  | number (value : Float) (unit : String)
  | str (value : String)
  | ident (name : String)
  | hash (name : String)
  | dot (name : String)
  | dynamic (code : String)
  | sign (s : Sign)
  | leftParen
  | rightParen
  deriving Repr

structure Token where
  lexeme : Lexeme
  span : Span
  deriving Repr

/-- The name at the front of a text. A hyphen at its end belongs to what follows. -/
def nameAt (cs : List Char) : List Char :=
  ((cs.takeWhile isNameChar).reverse.dropWhile (· == '-')).reverse

/-- The value of a quoted string and the characters up to and with its closing quote. A backslash
stands for the character after it. -/
def stringAt? (quote : Char) : List Char → Option (List Char × Nat)
  | [] => none
  | '\\' :: [] => none
  | '\\' :: c :: cs => (stringAt? quote cs).map fun (value, n) => (c :: value, n + 2)
  | c :: cs =>
    if c = quote then some ([], 1)
    else (stringAt? quote cs).map fun (value, n) => (c :: value, n + 1)

/-- A number with its unit: a percent sign or letters. -/
def numberAt (cs : List Char) : Lexeme × Nat :=
  let (whole, fraction, n) := Decimal.split cs
  let value := Decimal.nearest whole fraction
  match cs.drop n with
  | '%' :: _ => (.number value "%", n + 1)
  | rest =>
    let unit := rest.takeWhile isAsciiLetter
    (.number value (String.ofList unit), n + unit.length)

/-- The sign at the front of a text, the longer ones first, and its length. -/
def signAt? : List Char → Option (Sign × Nat)
  | '>' :: '=' :: _ => some (.ge, 2)
  | '<' :: '=' :: _ => some (.le, 2)
  | '=' :: '=' :: _ => some (.eq, 2)
  | '!' :: '=' :: _ => some (.ne, 2)
  | '&' :: '&' :: _ => some (.and, 2)
  | '|' :: '|' :: _ => some (.or, 2)
  | '>' :: _ => some (.gt, 1)
  | '<' :: _ => some (.lt, 1)
  | '!' :: _ => some (.not, 1)
  | '?' :: _ => some (.question, 1)
  | ':' :: _ => some (.colon, 1)
  | '+' :: _ => some (.plus, 1)
  | '-' :: _ => some (.minus, 1)
  | '*' :: _ => some (.times, 1)
  | '/' :: _ => some (.divide, 1)
  | _ => none

/-- The token that begins with `c`. The number says how many characters of `rest` it takes up, or
how many the fault extends over. -/
def lexemeAt (c : Char) (rest : List Char) : Except (ExprFault × Nat) (Lexeme × Nat) :=
  if isAsciiDigit c || (c == '.' && rest.head?.any isAsciiDigit) then
    let (lexeme, n) := numberAt (c :: rest)
    .ok (lexeme, n - 1)
  else if c = '"' ∨ c = '\x27' then
    match stringAt? c rest with
    | some (value, n) => .ok (.str (String.ofList value), n)
    | none => .error (.unterminatedString, rest.length)
  else if c = '{' ∧ rest.head? = some '{' then
    match find? ['}', '}'] (rest.drop 1) with
    | none => .error (.unterminatedDynamic, rest.length)
    | some n =>
      let code := trim ((rest.drop 1).take n)
      if code.isEmpty then .error (.emptyDynamic, n + 3)
      else .ok (.dynamic (String.ofList code), n + 3)
  else if c = '#' then
    let name := nameAt rest
    if name.isEmpty then .error (.missingId, 0)
    else .ok (.hash (String.ofList name), name.length)
  else if c = '.' ∧ rest.head?.any isNameStart then
    let name := nameAt rest
    .ok (.dot (String.ofList name), name.length)
  else if isNameStart c then
    let name := nameAt (c :: rest)
    .ok (.ident (String.ofList name), name.length - 1)
  else if c = '(' then .ok (.leftParen, 0)
  else if c = ')' then .ok (.rightParen, 0)
  else
    match signAt? (c :: rest) with
    | some (s, n) => .ok (.sign s, n - 1)
    | none => .error (if c = '=' then .singleEquals else .unexpectedCharacter c, 0)

/-- The tokens of a text that starts at `offset`. -/
def tokens (offset : Nat) (cs : List Char) : Except ExprError (List Token) :=
  match cs with
  | [] => .ok []
  | c :: rest =>
    if isBlank c then tokens (offset + c.utf8Size) rest
    else
      match lexemeAt c rest with
      | .error (fault, n) => .error ⟨fault, ⟨offset, offset + size (c :: rest.take n)⟩⟩
      | .ok (lexeme, n) =>
        let stop := offset + size (c :: rest.take n)
        (tokens stop (rest.drop n)).map (⟨lexeme, ⟨offset, stop⟩⟩ :: ·)
termination_by cs.length
decreasing_by all_goals simp only [List.length_cons, List.length_drop]; omega

section

variable (offset : Nat) {c : Char} {rest : List Char}

theorem tokens_nil : tokens offset [] = .ok [] := by
  rw [tokens.eq_def]

theorem tokens_blank (h : isBlank c = true) :
    tokens offset (c :: rest) = tokens (offset + c.utf8Size) rest := by
  rw [tokens.eq_def]
  exact if_pos h

theorem tokens_lexeme (hc : ¬ isBlank c = true) {lexeme : Lexeme} {n : Nat}
    (h : lexemeAt c rest = .ok (lexeme, n)) :
    tokens offset (c :: rest) =
      (tokens (offset + size (c :: rest.take n)) (rest.drop n)).map
        (⟨lexeme, ⟨offset, offset + size (c :: rest.take n)⟩⟩ :: ·) := by
  rw [tokens.eq_def]
  dsimp only
  rw [if_neg hc, h]

theorem tokens_fault (hc : ¬ isBlank c = true) {fault : ExprFault} {n : Nat}
    (h : lexemeAt c rest = .error (fault, n)) :
    tokens offset (c :: rest) =
      .error ⟨fault, ⟨offset, offset + size (c :: rest.take n)⟩⟩ := by
  rw [tokens.eq_def]
  dsimp only
  rw [if_neg hc, h]

end

end Chtl.Expr
