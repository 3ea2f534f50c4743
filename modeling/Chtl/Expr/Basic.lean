import Chtl.Source.Span

/-!
# Expressions

Conditions and computed style values share one language of expressions. Every node knows the part
of the source it was read from.
-/

set_option autoImplicit false
set_option linter.all false

namespace Chtl

/-- Names elements of a document by id, class or tag. -/
inductive Selector where
  | id (name : String)
  | cls (name : String)
  | tag (name : String)
  deriving DecidableEq, Repr

def Selector.text : Selector → String
  | id name => "#" ++ name
  | cls name => "." ++ name
  | tag name => name

/-- A selector by its first character: `#` for an id, `.` for a class, anything else for a tag. -/
def Selector.ofText (text : String) : Selector :=
  match text.toList with
  | '#' :: name => id (String.ofList name)
  | '.' :: name => cls (String.ofList name)
  | _ => tag text

inductive UnaryOp where
  | not
  | neg
  deriving DecidableEq, Repr

inductive BinaryOp where
  | or
  | and
  | gt
  | lt
  | ge
  | le
  | eq
  | ne
  | add
  | sub
  | mul
  | div
  deriving DecidableEq, Repr

inductive Expr where
  | number (value : Float) (unit : String) (span : Span)
  | str (value : String) (span : Span)
  | bool (value : Bool) (span : Span)
  /-- A property of the element at hand, or a keyword of the style language. -/
  | ident (name : String) (span : Span)
  /-- A property of another element. -/
  | reference (selector : Selector) (property : String) (span : Span)
  /-- Code between double braces, known only when the page runs. -/
  | dynamic (code : String) (span : Span)
  | unary (op : UnaryOp) (operand : Expr) (span : Span)
  | binary (op : BinaryOp) (lhs rhs : Expr) (span : Span)
  | ternary (cond yes no : Expr) (span : Span)
  deriving Repr

namespace Expr

def span : Expr → Span
  | number _ _ s | str _ s | bool _ s | ident _ s | reference _ _ s | dynamic _ s | unary _ _ s
  | binary _ _ _ s | ternary _ _ _ s => s

/-- The same expression with another span at its root. -/
def withSpan (s : Span) : Expr → Expr
  | number v u _ => number v u s
  | str v _ => str v s
  | bool v _ => bool v s
  | ident n _ => ident n s
  | reference sel p _ => reference sel p s
  | dynamic c _ => dynamic c s
  | unary op e _ => unary op e s
  | binary op l r _ => binary op l r s
  | ternary c y n _ => ternary c y n s

/-- Whether some operand is known only when the page runs. -/
def isDynamic : Expr → Bool
  | dynamic _ _ => true
  | unary _ e _ => e.isDynamic
  | binary _ l r _ => l.isDynamic || r.isDynamic
  | ternary c y n _ => c.isDynamic || y.isDynamic || n.isDynamic
  | _ => false

end Expr

/-- What is wrong with the text of an expression. -/
inductive ExprFault where
  | missingId
  | unterminatedString
  | emptyDynamic
  | unterminatedDynamic
  | singleEquals
  | unexpectedCharacter (c : Char)
  | missingExpression
  | trailingInput
  | missingColon
  | endOfExpression
  | missingProperty (reference : String)
  | missingParenthesis
  | missingOperand
  deriving DecidableEq, Repr

def ExprFault.message : ExprFault → String
  | missingId => "expected an id after '#'"
  | unterminatedString => "unterminated string"
  | emptyDynamic => "empty '\x7b\x7b \x7d\x7d' operand"
  | unterminatedDynamic => "unterminated '\x7b\x7b' operand"
  | singleEquals => "'=' is not an operator; use '=='"
  | unexpectedCharacter c => "unexpected character '" ++ String.singleton c ++ "'"
  | missingExpression => "expected an expression"
  | trailingInput => "unexpected trailing input"
  | missingColon => "expected ':' in conditional expression"
  | endOfExpression => "unexpected end of expression"
  | missingProperty reference => "expected '.property' after '" ++ reference ++ "'"
  | missingParenthesis => "expected ')'"
  | missingOperand => "expected an operand"

structure ExprError where
  fault : ExprFault
  span : Span
  deriving DecidableEq, Repr

def ExprError.message (e : ExprError) : String := e.fault.message

end Chtl
