import Chtl.Expr.Token

/-!
# Reading expressions

From the loosest to the tightest: a conditional, which nests to the right; disjunctions and
conjunctions, at most one comparison, sums and products, all to the left; the signs of negation; and
operands. Each level is given the reader for nested conditionals, whose nesting is bounded by the
number of tokens.
-/

set_option autoImplicit false
set_option linter.all false

namespace Chtl.Expr

/-- An expression read from the front of the tokens, and the tokens left. -/
abbrev Reading := Except ExprError (Expr × List Token)

/-- Where the next token stands; after the last one, the end of the text. -/
def nextSpan (stop : Span) : List Token → Span
  | [] => stop
  | t :: _ => t.span

/-- The property name that directly touches what ends at `offset`. -/
def attached? (offset : Nat) : List Token → Option (String × Span × List Token)
  | ⟨.dot name, span⟩ :: rest => if span.start = offset then some (name, span, rest) else none
  | _ => none

/-- Reads one operand. -/
def operand (stop : Span) (nested : List Token → Reading) : List Token → Reading
  | [] => .error ⟨.endOfExpression, stop⟩
  | ⟨lexeme, span⟩ :: rest =>
    match lexeme with
    | .number value unit => .ok (.number value unit span, rest)
    | .str value => .ok (.str value span, rest)
    | .dynamic code => .ok (.dynamic code span, rest)
    | .ident name =>
      if name = "true" ∨ name = "false" then .ok (.bool (name = "true") span, rest)
      else
        match attached? span.stop rest with
        | some (property, last, more) =>
          .ok (.reference (.tag name) property (span.cover last), more)
        | none => .ok (.ident name span, rest)
    | .hash name =>
      match attached? span.stop rest with
      | some (property, last, more) => .ok (.reference (.id name) property (span.cover last), more)
      | none => .error ⟨.missingProperty ("#" ++ name), span⟩
    | .dot name =>
      match attached? span.stop rest with
      | some (property, last, more) => .ok (.reference (.cls name) property (span.cover last), more)
      | none => .error ⟨.missingProperty ("." ++ name), span⟩
    | .leftParen =>
      match nested rest with
      | .error e => .error e
      | .ok (inner, ⟨.rightParen, close⟩ :: more) => .ok (inner.withSpan (span.cover close), more)
      | .ok (_, more) => .error ⟨.missingParenthesis, nextSpan stop more⟩
    | .rightParen => .error ⟨.missingOperand, span⟩
    | .sign _ => .error ⟨.missingOperand, span⟩

/-- Reads the signs of negation in front of an operand. -/
def signed (stop : Span) (nested : List Token → Reading) : List Token → Reading
  | ⟨.sign .not, span⟩ :: rest =>
    (signed stop nested rest).map fun (e, more) => (.unary .not e (span.cover e.span), more)
  | ⟨.sign .minus, span⟩ :: rest =>
    (signed stop nested rest).map fun (e, more) => (.unary .neg e (span.cover e.span), more)
  | ts => operand stop nested ts

/-- Continues a level to the left while an operator of the level follows, `n` times at most. -/
def extend (ops : Sign → Option BinaryOp) (next : List Token → Reading) :
    (n : Nat) → Expr → List Token → Reading
  | n + 1, lhs, ⟨.sign s, span⟩ :: rest =>
    match ops s with
    | none => .ok (lhs, ⟨.sign s, span⟩ :: rest)
    | some op =>
      match next rest with
      | .error e => .error e
      | .ok (rhs, more) => extend ops next n (.binary op lhs rhs (lhs.span.cover rhs.span)) more
  | _, lhs, ts => .ok (lhs, ts)

/-- A level of binary operators over the next tighter one. -/
def level (ops : Sign → Option BinaryOp) (next : List Token → Reading) (limit : List Token → Nat)
    (ts : List Token) : Reading :=
  match next ts with
  | .error e => .error e
  | .ok (lhs, more) => extend ops next (limit more) lhs more

def productOps : Sign → Option BinaryOp
  | .times => some .mul
  | .divide => some .div
  | _ => none

def sumOps : Sign → Option BinaryOp
  | .plus => some .add
  | .minus => some .sub
  | _ => none

def comparisonOps : Sign → Option BinaryOp
  | .ge => some .ge
  | .le => some .le
  | .gt => some .gt
  | .lt => some .lt
  | .eq => some .eq
  | .ne => some .ne
  | _ => none

def andOps : Sign → Option BinaryOp
  | .and => some .and
  | _ => none

def orOps : Sign → Option BinaryOp
  | .or => some .or
  | _ => none

def product (stop : Span) (nested : List Token → Reading) : List Token → Reading :=
  level productOps (signed stop nested) List.length

def sum (stop : Span) (nested : List Token → Reading) : List Token → Reading :=
  level sumOps (product stop nested) List.length

/-- At most one comparison stands at its level. -/
def comparison (stop : Span) (nested : List Token → Reading) : List Token → Reading :=
  level comparisonOps (sum stop nested) fun _ => 1

def conjunction (stop : Span) (nested : List Token → Reading) : List Token → Reading :=
  level andOps (comparison stop nested) List.length

def disjunction (stop : Span) (nested : List Token → Reading) : List Token → Reading :=
  level orOps (conjunction stop nested) List.length

/-- Reads a conditional, `depth` bounding how deeply conditionals nest. -/
def conditional (stop : Span) : (depth : Nat) → List Token → Reading
  | 0, ts => .error ⟨.endOfExpression, nextSpan stop ts⟩
  | depth + 1, ts =>
    match disjunction stop (conditional stop depth) ts with
    | .error e => .error e
    | .ok (cond, ⟨.sign .question, _⟩ :: rest) =>
      match conditional stop depth rest with
      | .error e => .error e
      | .ok (yes, ⟨.sign .colon, _⟩ :: more) =>
        match conditional stop depth more with
        | .error e => .error e
        | .ok (no, left) => .ok (.ternary cond yes no (cond.span.cover no.span), left)
      | .ok (_, more) => .error ⟨.missingColon, nextSpan stop more⟩
    | .ok (cond, rest) => .ok (cond, rest)

/-- Reads all the tokens of a text that ends at `stop`. -/
def ofTokens (stop : Nat) (ts : List Token) : Except ExprError Expr :=
  if ts.isEmpty then .error ⟨.missingExpression, .point stop⟩
  else
    match conditional (.point stop) (ts.length + 1) ts with
    | .error e => .error e
    | .ok (e, []) => .ok e
    | .ok (_, extra :: _) => .error ⟨.trailingInput, extra.span⟩

/-- Reads a whole text that starts at the offset `base` of its source. -/
def parse (text : List Char) (base : Nat) : Except ExprError Expr :=
  match tokens base text with
  | .error e => .error e
  | .ok ts => ofTokens (base + Text.size text) ts

end Chtl.Expr
