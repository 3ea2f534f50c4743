import Chtl.Style.Eval

/-!
# Conditions as code of the page

A condition that is decided when the page runs becomes an expression of the page's code. Operands in
double braces keep them; everything that is known is written as a literal.
-/

set_option autoImplicit false
set_option linter.all false

namespace Chtl

/-- The operator of the page's code. Equality is strict. -/
def BinaryOp.js : BinaryOp → String
  | or => "||"
  | and => "&&"
  | gt => ">"
  | lt => "<"
  | ge => ">="
  | le => "<="
  | eq => "==="
  | ne => "!=="
  | add => "+"
  | sub => "-"
  | mul => "*"
  | div => "/"

def UnaryOp.js : UnaryOp → String
  | not => "!"
  | neg => "-"

namespace Expr

variable {σ : Type}

/-- Whether an operand of this shape needs parentheses. -/
def isCompound : Expr → Bool
  | binary _ _ _ _ | ternary _ _ _ _ => true
  | _ => false

def parenthesize (e : Expr) (js : String) : String :=
  if e.isCompound then "(" ++ js ++ ")" else js

/-- The code of an expression; names and references are looked up now. -/
def lower (style : StyleMap) (lookup : Lookup σ) : Expr → Evaluation σ String
  | dynamic code _ => pure ("\x7b\x7b" ++ code ++ "\x7d\x7d")
  | number value _ _ => pure (numberText value)
  | str value _ => pure (Value.str value).toJs
  | bool value _ => pure (boolText value)
  | ident name span => do
    let v ← eval style lookup (ident name span)
    pure v.toJs
  | reference selector property span => do
    let v ← eval style lookup (reference selector property span)
    pure v.toJs
  | unary op operand _ => do
    let js ← lower style lookup operand
    pure (op.js ++ operand.parenthesize js)
  | binary op lhs rhs _ => do
    let left ← lower style lookup lhs
    let right ← lower style lookup rhs
    pure (lhs.parenthesize left ++ " " ++ op.js ++ " " ++ rhs.parenthesize right)
  | ternary cond yes no _ => do
    let c ← lower style lookup cond
    let y ← lower style lookup yes
    let n ← lower style lookup no
    pure (cond.parenthesize c ++ " ? " ++ yes.parenthesize y ++ " : " ++ no.parenthesize n)

end Expr

end Chtl
