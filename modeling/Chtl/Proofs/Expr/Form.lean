import Chtl.Proofs.Expr.Grammar
import Chtl.Proofs.Static.Literal

/-!
# Written expressions

A form is an expression as it is put into words. Its names, numerals and operands in braces are such
that the text of each is read as a whole. The words of a form stand between single blanks, with
parentheses only where an operand is looser than its place in the grammar.
-/

set_option autoImplicit false
set_option linter.all false

namespace Chtl

open Text

def BinaryOp.sign : BinaryOp → Expr.Sign
  | or => .or
  | and => .and
  | gt => .gt
  | lt => .lt
  | ge => .ge
  | le => .le
  | eq => .eq
  | ne => .ne
  | add => .plus
  | sub => .minus
  | mul => .times
  | div => .divide

/-- The level of the grammar that the operator belongs to. -/
def BinaryOp.rank : BinaryOp → Expr.Level
  | or => .disjunction
  | and => .conjunction
  | gt | lt | ge | le | eq | ne => .comparison
  | add | sub => .sum
  | mul | div => .product

namespace Expr

theorem ops_sign (op : BinaryOp) : op.rank.ops op.sign = some op := by
  cases op <;> rfl

/-- The expression without its spans. -/
def unplaced : Expr → Expr
  | number v u _ => number v u (.point 0)
  | str v _ => str v (.point 0)
  | bool v _ => bool v (.point 0)
  | ident n _ => ident n (.point 0)
  | reference sel p _ => reference sel p (.point 0)
  | dynamic c _ => dynamic c (.point 0)
  | unary op e _ => unary op e.unplaced (.point 0)
  | binary op l r _ => binary op l.unplaced r.unplaced (.point 0)
  | ternary c y n _ => ternary c.unplaced y.unplaced n.unplaced (.point 0)

theorem unplaced_withSpan (e : Expr) (s : Span) : (e.withSpan s).unplaced = e.unplaced := by
  cases e <;> rfl

/-! ## Atoms -/

/-- A name that is read as a whole: a hyphen at its end would be left to what follows. -/
structure Name where
  text : List Char
  parts : text.all isNameChar = true
  ends : text.getLast?.any (· != '-') = true

structure Identifier extends Name where
  begins : text.head?.any isNameStart = true

/-- The two names that stand for truth values. -/
def Identifier.truth : Bool → Identifier
  | true => ⟨⟨['t', 'r', 'u', 'e'], rfl, rfl⟩, rfl⟩
  | false => ⟨⟨['f', 'a', 'l', 's', 'e'], rfl, rfl⟩, rfl⟩

/-- The name stands for no truth value. -/
def Identifier.Free (name : Identifier) : Prop :=
  name.text ≠ (truth true).text ∧ name.text ≠ (truth false).text

/-- Digits, with or without a point. -/
structure Numeral where
  whole : List Char
  fraction : List Char
  digits : (whole ++ fraction).all isAsciiDigit = true
  nonempty : whole ++ fraction ≠ []

def Numeral.text (n : Numeral) : List Char :=
  n.whole ++ if n.fraction = [] then [] else '.' :: n.fraction

def Numeral.value (n : Numeral) : Float := Decimal.nearest n.whole n.fraction

/-- What a numeral counts: nothing, a unit or parts of a hundred. -/
structure Measure where
  text : List Char
  valid : text = ['%'] ∨ text.all isAsciiLetter = true

/-- Code that can stand between double braces. -/
structure Code where
  text : List Char
  nonempty : text ≠ []
  trimmed : trim text = text
  closed : ¬ ['}', '}'] <:+: text

/-- What a property is asked of. -/
inductive Target where
  | id (name : Name)
  | cls (name : Identifier)
  | tag (name : Identifier) (free : name.Free)

namespace Target

def text : Target → List Char
  | id name => '#' :: name.text
  | cls name => '.' :: name.text
  | tag name _ => name.text

def selector : Target → Selector
  | id name => .id (String.ofList name.text)
  | cls name => .cls (String.ofList name.text)
  | tag name _ => .tag (String.ofList name.text)

end Target

/-- What is written without blanks around an operator. -/
inductive Atom where
  | number (n : Numeral) (unit : Measure)
  | str (value : String)
  | bool (value : Bool)
  | ident (name : Identifier) (free : name.Free)
  | reference (target : Target) (property : Identifier)
  | dynamic (code : Code)

namespace Atom

def text : Atom → List Char
  | number n unit => n.text ++ unit.text
  | str value => Static.quoted value
  | bool value => (Identifier.truth value).text
  | ident name _ => name.text
  | reference target property => target.text ++ '.' :: property.text
  | dynamic code => '{' :: '{' :: ' ' :: (code.text ++ [' ', '}', '}'])

def tree : Atom → Expr
  | number n unit => .number n.value (String.ofList unit.text) (.point 0)
  | str value => .str value (.point 0)
  | bool value => .bool value (.point 0)
  | ident name _ => .ident (String.ofList name.text) (.point 0)
  | reference target property =>
    .reference target.selector (String.ofList property.text) (.point 0)
  | dynamic code => .dynamic (String.ofList code.text) (.point 0)

end Atom

/-! ## Words -/

def Sign.text : Sign → List Char
  | ge => ['>', '=']
  | le => ['<', '=']
  | eq => ['=', '=']
  | ne => ['!', '=']
  | and => ['&', '&']
  | or => ['|', '|']
  | gt => ['>']
  | lt => ['<']
  | not => ['!']
  | question => ['?']
  | colon => [':']
  | plus => ['+']
  | minus => ['-']
  | times => ['*']
  | divide => ['/']

/-- What stands between two blanks. -/
inductive Word where
  | atom (a : Atom)
  | sign (s : Sign)
  | opening
  | closing

def Word.text : Word → List Char
  | atom a => a.text
  | sign s => s.text
  | opening => ['(']
  | closing => [')']

/-- Words with single blanks between them. -/
def spaced (ws : List Word) : List Char := [' '].intercalate (ws.map Word.text)

/-! ## Forms -/

inductive Form where
  | atom (a : Atom)
  | unary (op : UnaryOp) (operand : Form)
  | binary (op : BinaryOp) (lhs rhs : Form)
  | ternary (cond yes no : Form)

/-- What stands in front of an operator of the level: another row of the level, unless at most one
operator may stand there. -/
def Level.left (l : Level) : Nonterminal := if l.repeats then .level l else l.operands

namespace Form

/-- The tightest part of the grammar that the form is. -/
def kind : Form → Nonterminal
  | atom _ => .primary
  | unary _ _ => .unary
  | binary op _ _ => .level op.rank
  | ternary _ _ _ => .ternary

/-- The words of the form in a place, in parentheses if the form is looser. -/
def enclose (f : Form) (place : Nonterminal) (ws : List Word) : List Word :=
  if place.grip ≤ f.kind.grip then ws else .opening :: (ws ++ [.closing])

def words : Form → List Word
  | atom a => [.atom a]
  | unary op e => .sign op.sign :: e.enclose .unary e.words
  | binary op l r =>
    l.enclose op.rank.left l.words ++ .sign op.sign :: r.enclose op.rank.operands r.words
  | ternary c y n =>
    c.enclose (.level .disjunction) c.words ++ .sign .question ::
      (y.enclose .ternary y.words ++ .sign .colon :: n.enclose .ternary n.words)

def text (f : Form) : List Char := spaced f.words

def tree : Form → Expr
  | atom a => a.tree
  | unary op e => .unary op e.tree (.point 0)
  | binary op l r => .binary op l.tree r.tree (.point 0)
  | ternary c y n => .ternary c.tree y.tree n.tree (.point 0)

end Form

end Expr

end Chtl
