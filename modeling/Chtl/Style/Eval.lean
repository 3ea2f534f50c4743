import Chtl.Expr.Basic
import Chtl.Style.Map
import Chtl.Style.Value

/-!
# Evaluating expressions

An expression is evaluated against the style of the element it belongs to and a way to look up
properties of other elements. Looking up may fail and may keep a state, which outlives a failure.
-/

set_option autoImplicit false
set_option linter.all false

namespace Chtl

inductive EvalError where
  | unitMismatch (left right : String) (span : Span)
  | wrongType (expected found : ValueType) (span : Span)
  | runtimeOperand (span : Span)
  | zeroDivisor (span : Span)
  | unresolvedReference (reference : String) (span : Span)
  | circularReference (reference : String) (span : Span)
  deriving DecidableEq, Repr

namespace EvalError

def span : EvalError → Span
  | unitMismatch _ _ s | wrongType _ _ s | runtimeOperand s | zeroDivisor s
  | unresolvedReference _ s | circularReference _ s => s

def unitLabel (unit : String) : String :=
  if unit = "" then "(none)" else unit

def message : EvalError → String
  | unitMismatch left right _ =>
    "unit mismatch: cannot combine '" ++ unitLabel left ++ "' with '" ++ unitLabel right ++ "'"
  | wrongType expected found _ =>
    "type mismatch: expected " ++ expected.word ++ ", found " ++ found.word
  | runtimeOperand _ => "type mismatch: expected compile-time value, found runtime operand"
  | zeroDivisor _ => "type mismatch: expected non-zero divisor, found zero"
  | unresolvedReference reference _ => "unresolved property reference '" ++ reference ++ "'"
  | circularReference reference _ => "circular property reference through '" ++ reference ++ "'"

end EvalError

/-- Computations that may fail and keep their state when they do. -/
abbrev Evaluation (σ : Type) := ExceptT EvalError (StateM σ)

/-- Finds the value of a property of another element; the span is that of the reference. -/
abbrev Lookup (σ : Type) := Selector → String → Span → Evaluation σ Value

/-- The name of a reference in messages. -/
def referenceText (selector : Selector) (property : String) : String :=
  selector.text ++ "." ++ property

namespace Value

def isComparison : BinaryOp → Bool
  | .gt | .lt | .ge | .le | .eq | .ne => true
  | _ => false

/-- Whether two numbers compare as the operator says. -/
def holds (op : BinaryOp) (a b : Float) : Bool :=
  match op with
  | .gt => a > b
  | .lt => a < b
  | .ge => a >= b
  | .le => a <= b
  | .eq => a == b
  | _ => a != b

/-- Numbers compare if their units agree; texts and truth values only for equality. -/
def compare (op : BinaryOp) (left right : Value) (span : Span) : Except EvalError Value :=
  match left, right with
  | number a ua, number b ub =>
    if ua = ub then .ok (bool (holds op a b)) else .error (.unitMismatch ua ub span)
  | number _ _, other => .error (.wrongType .number other.type span)
  | other, number _ _ => .error (.wrongType .number other.type span)
  | str a, str b =>
    match op with
    | .eq => .ok (bool (a == b))
    | .ne => .ok (bool (a != b))
    | _ => .error (.wrongType .number .str span)
  | bool a, bool b =>
    match op with
    | .eq => .ok (bool (a == b))
    | .ne => .ok (bool (a != b))
    | _ => .error (.wrongType .number .bool span)
  | left, _ => .error (.wrongType .number left.type span)

/-- Sums take the unit of either side, products that of one side, and quotients of like units have
none. -/
def arithmetic (op : BinaryOp) (left right : Value) (divisor span : Span) :
    Except EvalError Value :=
  match left, right with
  | number a ua, number b ub =>
    let mismatch : Except EvalError Value := .error (.unitMismatch ua ub span)
    match op with
    | .mul =>
      if ub = "" then .ok (number (a * b) ua)
      else if ua = "" then .ok (number (a * b) ub)
      else mismatch
    | .add | .sub =>
      let value := if op = .add then a + b else a - b
      if ub = "" then .ok (number value ua)
      else if ua = "" then .ok (number value ub)
      else if ua = ub then .ok (number value ua)
      else mismatch
    | _ =>
      if b == 0 then .error (.zeroDivisor divisor)
      else if ub = "" then .ok (number (a / b) ua)
      else if ua = ub then .ok (number (a / b) "")
      else mismatch
  | number _ _, other => .error (.wrongType .number other.type span)
  | other, _ => .error (.wrongType .number other.type span)

/-- The truth value, or the fault of having none. -/
def truth (v : Value) (span : Span) : Except EvalError Bool :=
  match v with
  | bool b => .ok b
  | other => .error (.wrongType .bool other.type span)

end Value

namespace Expr

variable {σ : Type}

/-- The value of an expression. The right operand of a disjunction or conjunction and the branches
of a conditional are evaluated only if they decide. -/
def eval (style : StyleMap) (lookup : Lookup σ) : Expr → Evaluation σ Value
  | number value unit _ => pure (.number value unit)
  | str value _ => pure (.str value)
  | bool value _ => pure (.bool value)
  | ident name _ =>
    match style.get? name with
    | some text => pure (.ofCss text)
    | none => pure (.str name)
  | reference selector property span => lookup selector property span
  | dynamic _ span => throw (.runtimeOperand span)
  | unary op operand _ => do
    let v ← eval style lookup operand
    match op, v with
    | .not, .bool b => pure (.bool (!b))
    | .neg, .number x unit => pure (.number (-x) unit)
    | .not, other => throw (.wrongType .bool other.type operand.span)
    | .neg, other => throw (.wrongType .number other.type operand.span)
  | binary op lhs rhs span => do
    let left ← eval style lookup lhs
    match op with
    | .and =>
      let a ← liftExcept (left.truth lhs.span)
      if a then
        let right ← eval style lookup rhs
        let b ← liftExcept (right.truth rhs.span)
        pure (.bool b)
      else pure (.bool false)
    | .or =>
      let a ← liftExcept (left.truth lhs.span)
      if a then pure (.bool true)
      else
        let right ← eval style lookup rhs
        let b ← liftExcept (right.truth rhs.span)
        pure (.bool b)
    | op =>
      let right ← eval style lookup rhs
      if Value.isComparison op then liftExcept (left.compare op right span)
      else liftExcept (left.arithmetic op right rhs.span span)
  | ternary cond yes no _ => do
    let c ← eval style lookup cond
    let b ← liftExcept (c.truth cond.span)
    if b then eval style lookup yes else eval style lookup no
where
  liftExcept {α : Type} : Except EvalError α → Evaluation σ α
    | .ok a => pure a
    | .error e => throw e

/-- The truth value of an expression. -/
def evalBool (style : StyleMap) (lookup : Lookup σ) (e : Expr) : Evaluation σ Bool := do
  let v ← e.eval style lookup
  eval.liftExcept (v.truth e.span)

end Expr

end Chtl
