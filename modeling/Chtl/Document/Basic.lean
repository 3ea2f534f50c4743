import Chtl.Expr.Basic
import Chtl.Fragment.Basic

/-!
# Documents

A document is a forest of elements, texts, comments and placeholders. An element carries attributes,
style declarations, rules and chains of conditional branches; a chain stands among the element's
children at its anchor.
-/

set_option autoImplicit false
set_option linter.all false

namespace Chtl

inductive AttributeValue where
  | literal (value : String)
  /-- Follows a variable of the page's code. -/
  | responsive (name unit : String)
  deriving DecidableEq, Repr

def AttributeValue.literal? : AttributeValue → Option String
  | literal value => some value
  | responsive _ _ => none

structure Attribute where
  name : String
  value : AttributeValue
  span : Span
  deriving DecidableEq, Repr

inductive StyleValue where
  | literal (text : String)
  | expr (e : Expr)
  /-- Written when the page runs, absent from the static style. -/
  | responsive (name unit : String)
  deriving Repr

def StyleValue.isResponsive : StyleValue → Bool
  | responsive _ _ => true
  | _ => false

structure StyleDeclaration where
  key : String
  value : StyleValue
  span : Span
  deriving Repr

/-- A rule with a selector, in which `&` stands for the element that owns the rule. -/
structure StyleRule where
  selector : String
  body : String
  span : Span
  deriving DecidableEq, Repr

structure Condition where
  expr : Expr
  /-- The condition as it was written. -/
  text : String
  deriving Repr

mutual

structure Element where
  nodeId : Nat
  tag : String
  attributes : List Attribute := []
  children : List Node := []
  style : List StyleDeclaration := []
  chains : List Chain := []
  rules : List StyleRule := []
  span : Span

/-- One branch of a chain. Only an `else` branch has no condition. -/
structure Branch where
  condition : Option Condition
  body : List StyleDeclaration
  children : List Node
  span : Span

/-- An `if` with what follows it; the anchor is the number of children in front of it. -/
structure Chain where
  branches : List Branch
  anchor : Nat

inductive Node where
  | element (e : Element)
  | text (value : String) (span : Span)
  | comment (value : String) (span : Span)
  | placeholder (placeholder : Placeholder) (kind : FragmentKind) (span : Span)

end

instance : Inhabited Node := ⟨.text "" (.point 0)⟩

structure Document where
  children : List Node := []
  /-- The style blocks that became part of an element, in ascending order. Their placeholders never
  reach the page. -/
  consumedStyles : List Placeholder := []

def Branch.isDynamic (b : Branch) : Bool :=
  b.condition.any (·.expr.isDynamic)

/-- A chain is dynamic if one of its conditions is known only when the page runs. -/
def Chain.isDynamic (c : Chain) : Bool :=
  c.branches.any Branch.isDynamic

/-- The pieces of an element's content in document order: at each child, first the chains anchored
there, and the chains that are left after the last child. -/
def weave {α : Type} : (index : Nat) → (children : List α) → (chains : List (Nat × α)) → List α
  | _, [], chains => chains.map (·.2)
  | index, child :: children, chains =>
    (chains.takeWhile fun c => decide (c.1 ≤ index)).map (·.2) ++
      child :: weave (index + 1) children (chains.dropWhile fun c => decide (c.1 ≤ index))

end Chtl
