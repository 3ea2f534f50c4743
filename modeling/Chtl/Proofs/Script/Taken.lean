import Chtl.Html.Generate
import Chtl.Proofs.Bridge.Table
import Chtl.Proofs.Js.Grammar
import Chtl.Script.Glue
import Mathlib.Data.List.ReduceOption

/-!
# The branch that a dynamic chain takes

A dynamic chain is written twice. Every branch with children has a guard, a conjunction that is to
hold exactly if the branch is taken, and all branches together are the arms of a ladder, of which
one at most runs. Both are read here by the truth of the conditions in them.
-/

set_option autoImplicit false
set_option linter.all false

namespace Chtl

section

variable {truth : String → Bool} {c : Option String} {conditions : List (Option String)} {k : Nat}

end

namespace Html

/-- A condition in a guard, or the negation of one. -/
structure Literal where
  positive : Bool
  condition : String

/-- What guards are: nothing to hold, one condition as it is, or a conjunction of literals, each with
its condition in parentheses. -/
inductive Guard where
  | always
  | alone (condition : String)
  | all (first : Literal) (rest : List Literal)

def Literal.text (l : Literal) : String :=
  (if l.positive then "" else "!") ++ "(" ++ l.condition ++ ")"

def Literal.holds (truth : String → Bool) (l : Literal) : Bool :=
  truth l.condition == l.positive

/-- The tree of a literal, by the trees of conditions. -/
def Literal.tree (trees : String → Js.Tree) (l : Literal) : Js.Tree :=
  if l.positive then trees l.condition else .unary .not (trees l.condition)

namespace Guard

def text : Guard → String
  | always => "true"
  | alone condition => condition
  | all first rest => String.intercalate " && " (first.text :: rest.map Literal.text)

def holds (truth : String → Bool) : Guard → Bool
  | always => true
  | alone condition => truth condition
  | all first rest => (first :: rest).all (Literal.holds truth)

/-- The tree that a guard stands for. -/
def tree (trees : String → Js.Tree) : Guard → Js.Tree
  | always => .atom "true".toList
  | alone condition => trees condition
  | all first rest =>
    rest.foldl (fun t l => .binary .and t (l.tree trees)) (first.tree trees)

def conditions : Guard → List String
  | always => []
  | alone condition => [condition]
  | all first rest => (first :: rest).map (·.condition)

section

variable {trees : String → Js.Tree}

theorem readsAs_literal {l : Literal}
    (h : Js.ReadsAs 0 l.condition.toList (trees l.condition)) :
    Js.ReadsAs Js.tight l.text.toList (l.tree trees) := by
  obtain ⟨ts, hts, hreads⟩ := h
  have hparens := Js.tokens_parens hts
  cases hpositive : l.positive with
  | true =>
    refine ⟨_, ?_, by simpa [Literal.tree, hpositive] using .parens hreads⟩
    simpa [Literal.text, hpositive] using hparens
  | false =>
    refine ⟨_, ?_, by simpa [Literal.tree, hpositive] using .unary rfl (.parens hreads)⟩
    have hnot : Js.tokens ('!' :: '(' :: (l.condition.toList ++ [')'])) = _ :=
      Js.tokens_not (by simp)
    rw [hparens] at hnot
    simpa [Literal.text, hpositive] using hnot

theorem readsAs_and {text : String} {t : Js.Tree} {rest : List Literal}
    (ht : Js.ReadsAs 2 text.toList t)
    (h : ∀ l ∈ rest, Js.ReadsAs 0 l.condition.toList (trees l.condition)) :
    Js.ReadsAs 2 (String.intercalate " && " (text :: rest.map Literal.text)).toList
      (rest.foldl (fun t l => .binary .and t (l.tree trees)) t) := by
  induction rest generalizing text t with
  | nil => simpa using ht
  | cons l rest ih =>
    obtain ⟨hl, hrest⟩ := List.forall_mem_cons.mp h
    obtain ⟨ts, hts, hreads⟩ := ht
    obtain ⟨us, hus, hliteral⟩ := readsAs_literal hl
    rw [List.map_cons, String.intercalate_cons_cons, ← String.intercalate_cons_append]
    refine ih ⟨_, ?_, .binary le_rfl rfl hreads (hliteral.mono (by decide))⟩ hrest
    simpa [Js.Symbol.text] using Js.tokens_spaced .and hts hus

/-- Where its conditions are expressions, a guard is read as the tree that it stands for. -/
theorem readsAs_text {g : Guard}
    (h : ∀ c ∈ g.conditions, Js.ReadsAs 0 c.toList (trees c)) :
    Js.ReadsAs 0 g.text.toList (g.tree trees) := by
  cases g with
  | always => exact ⟨[.atom "true".toList], by rw [String.toList_ofList]; decide +kernel, .atom _⟩
  | alone condition => exact h condition List.mem_cons_self
  | all first rest =>
    obtain ⟨hfirst, hrest⟩ := List.forall_mem_cons.mp (List.forall_mem_map.mp h)
    exact (readsAs_and ((readsAs_literal hfirst).mono (by decide)) hrest).mono (Nat.zero_le _)

end

end Guard

end Html

namespace Script

/-- What follows the first arm of a ladder: nothing, an arm without a condition, or an arm with one
and what follows that. -/
inductive Arms where
  | done
  | otherwise (body : String)
  | orElse (condition body : String) (rest : Arms)

/-- A ladder begins with a condition. -/
structure Ladder where
  condition : String
  body : String
  rest : Arms

namespace Arms

/-- The conditions and bodies. -/
def list : Arms → List (Option String × String)
  | done => []
  | otherwise body => [(none, body)]
  | orElse condition body rest => (some condition, body) :: rest.list

def text : Arms → String
  | done => "  \x7d\n"
  | otherwise body => "  \x7d else \x7b\n" ++ body ++ "  \x7d\n"
  | orElse condition body rest =>
    "  \x7d else if (" ++ unwrapped condition ++ ") \x7b\n" ++ body ++ rest.text

/-- Which arm runs under the truth of the conditions. -/
def run (truth : String → Bool) : Arms → Option Nat
  | done => none
  | otherwise _ => some 0
  | orElse condition _ rest => if truth condition then some 0 else (rest.run truth).map (· + 1)

end Arms

namespace Ladder

def arms (l : Ladder) : List (Option String × String) := (some l.condition, l.body) :: l.rest.list

def text (l : Ladder) : String :=
  "  if (" ++ unwrapped l.condition ++ ") \x7b\n" ++ l.body ++ l.rest.text

def run (truth : String → Bool) (l : Ladder) : Option Nat :=
  if truth l.condition then some 0 else (l.rest.run truth).map (· + 1)

end Ladder

end Script

end Chtl
