import Chtl.Style.Lower

/-!
# Lowered conditions as trees

Lowering first decides what a condition is made of, and then writes it. What it is made of is kept
here as a tree: values that are known, operands that are not, and the operators around them.
-/

set_option autoImplicit false
set_option linter.all false

namespace Chtl

/-- A condition with values for everything that is known. -/
inductive Lowered where
  | value (v : Value)
  | operand (code : String)
  | unary (op : UnaryOp) (a : Lowered)
  | binary (op : BinaryOp) (a b : Lowered)
  | ternary (c y n : Lowered)

/-- The condition that lowering writes. -/
def Expr.lowered {σ : Type} (style : StyleMap) (lookup : Lookup σ) : Expr → Evaluation σ Lowered
  | dynamic code _ => pure (.operand code)
  | number value unit _ => pure (.value (.number value unit))
  | str value _ => pure (.value (.str value))
  | bool value _ => pure (.value (.bool value))
  | ident name span => .value <$> eval style lookup (ident name span)
  | reference selector property span => .value <$> eval style lookup (reference selector property span)
  | unary op operand _ => .unary op <$> operand.lowered style lookup
  | binary op lhs rhs _ => .binary op <$> lhs.lowered style lookup <*> rhs.lowered style lookup
  | ternary cond yes no _ =>
    .ternary <$> cond.lowered style lookup <*> yes.lowered style lookup <*> no.lowered style lookup

namespace Lowered

def isCompound : Lowered → Bool
  | binary _ _ _ | ternary _ _ _ => true
  | _ => false

/-- The text of an operand of an operator: in parentheses if it has more than one operand. -/
def enclose (l : Lowered) (text : List Char) : List Char :=
  if l.isCompound then '(' :: (text ++ [')']) else text

/-- The text of a condition, given what is written for operands that are not known. -/
def write (dynamic : List Char → List Char) : Lowered → List Char
  | value v => v.toJs.toList
  | operand code => dynamic code.toList
  | unary op a => op.js.toList ++ a.enclose (a.write dynamic)
  | binary op a b =>
    a.enclose (a.write dynamic) ++ ' ' :: (op.js.toList ++ ' ' :: b.enclose (b.write dynamic))
  | ternary c y n =>
    c.enclose (c.write dynamic) ++ ' ' :: ('?' :: ' ' :: (y.enclose (y.write dynamic) ++
      ' ' :: (':' :: ' ' :: n.enclose (n.write dynamic))))

/-- The condition with its operands in double braces. -/
def text (l : Lowered) : List Char :=
  l.write fun code => '{' :: '{' :: (code ++ ['}', '}'])

/-- The condition with the code of its operands in their places. -/
def code (l : Lowered) : List Char := l.write id

/-- The text of an operand of an operator. -/
def operandText (l : Lowered) : String := String.ofList (l.enclose l.text)

theorem ofList_text_unary (op : UnaryOp) (a : Lowered) :
    String.ofList (unary op a).text = op.js ++ a.operandText :=
  String.toList_injective (by simp [text, write, operandText])

theorem ofList_text_binary (op : BinaryOp) (a b : Lowered) :
    String.ofList (binary op a b).text = a.operandText ++ " " ++ op.js ++ " " ++ b.operandText :=
  String.toList_injective (by simp [text, write, operandText])

theorem ofList_text_ternary (c y n : Lowered) :
    String.ofList (ternary c y n).text =
      c.operandText ++ " ? " ++ y.operandText ++ " : " ++ n.operandText :=
  String.toList_injective (by simp [text, write, operandText])

end Lowered

namespace Expr

variable {σ : Type} {style : StyleMap} {lookup : Lookup σ}

/-- An operand as it is written into an operator's text, on both sides. -/
theorem parenthesize_lower {e : Expr}
    (h : (fun js => (js, e.isCompound)) <$> e.lower style lookup =
      (fun l => (String.ofList l.text, l.isCompound)) <$> e.lowered style lookup) :
    e.parenthesize <$> e.lower style lookup =
      Lowered.operandText <$> e.lowered style lookup := by
  have h := congrArg (fun x => (fun p : String × Bool => if p.2 then "(" ++ p.1 ++ ")" else p.1) <$> x) h
  simp only [Functor.map_map] at h
  refine h.trans (congrArg (· <$> e.lowered style lookup) (funext fun l => ?_))
  unfold Lowered.operandText Lowered.enclose
  cases l.isCompound
  · rfl
  · exact String.toList_injective (by simp)

theorem lower_lowered (e : Expr) :
    (fun js => (js, e.isCompound)) <$> e.lower style lookup =
      (fun l => (String.ofList l.text, l.isCompound)) <$> e.lowered style lookup := by
  induction e with
  | number value unit span =>
    simp [lower, lowered, Lowered.text, Lowered.write, Lowered.isCompound, isCompound, Value.toJs]
  | str value span =>
    simp [lower, lowered, Lowered.text, Lowered.write, Lowered.isCompound, isCompound]
  | bool value span =>
    simp [lower, lowered, Lowered.text, Lowered.write, Lowered.isCompound, isCompound, Value.toJs]
  | ident name span =>
    simp [lower, lowered, Lowered.text, Lowered.write, Lowered.isCompound, isCompound]
  | reference selector property span =>
    simp [lower, lowered, Lowered.text, Lowered.write, Lowered.isCompound, isCompound]
  | dynamic code span =>
    have hcode : "\x7b\x7b" ++ code ++ "\x7d\x7d" = String.ofList (Lowered.operand code).text :=
      String.toList_injective (by simp [Lowered.text, Lowered.write])
    simp [lower, lowered, hcode, Lowered.isCompound, isCompound]
  | unary op e span ih =>
    calc (fun js => (js, (unary op e span).isCompound)) <$> (unary op e span).lower style lookup
        = (fun inner => (op.js ++ inner, false)) <$> e.parenthesize <$> e.lower style lookup := by
          simp [lower, isCompound]
      _ = _ := by
          rw [parenthesize_lower ih]
          simp [lowered, Lowered.ofList_text_unary, Lowered.isCompound]
  | binary op lhs rhs span ihl ihr =>
    calc (fun js => (js, (binary op lhs rhs span).isCompound)) <$>
            (binary op lhs rhs span).lower style lookup
        = (do
            let left ← lhs.parenthesize <$> lhs.lower style lookup
            let right ← rhs.parenthesize <$> rhs.lower style lookup
            pure (left ++ " " ++ op.js ++ " " ++ right, true)) := by
          simp [lower, isCompound]
      _ = _ := by
          rw [parenthesize_lower ihl, parenthesize_lower ihr]
          simp [lowered, Lowered.ofList_text_binary, Lowered.isCompound, seq_eq_bind_map]
  | ternary cond yes no span ihc ihy ihn =>
    calc (fun js => (js, (ternary cond yes no span).isCompound)) <$>
            (ternary cond yes no span).lower style lookup
        = (do
            let c ← cond.parenthesize <$> cond.lower style lookup
            let y ← yes.parenthesize <$> yes.lower style lookup
            let n ← no.parenthesize <$> no.lower style lookup
            pure (c ++ " ? " ++ y ++ " : " ++ n, true)) := by
          simp [lower, isCompound]
      _ = _ := by
          rw [parenthesize_lower ihc, parenthesize_lower ihy, parenthesize_lower ihn]
          simp [lowered, Lowered.ofList_text_ternary, Lowered.isCompound, seq_eq_bind_map]

/-- Lowering writes the condition that the expression comes to. -/
theorem lower_eq (e : Expr) :
    e.lower style lookup = (fun l => String.ofList l.text) <$> e.lowered style lookup := by
  have h := congrArg (Prod.fst <$> ·) (@lower_lowered σ style lookup e)
  simpa only [Functor.map_map, id_map'] using h

end Expr

end Chtl
