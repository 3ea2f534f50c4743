import Chtl.Text.Basic

/-!
# Characters replaced one after the other

A text is escaped by replacements that each go over the whole of it, one character after the other.
Every one of them also works on what the earlier ones have written. All the same a text is written
character by character, each one as the replacements in turn write it alone.
-/

set_option autoImplicit false
set_option linter.all false

namespace Chtl.Text

/-- The text in which the characters of the rules are replaced, one rule after the other. -/
def replaceInTurn (rules : List (Char × List Char)) (cs : List Char) : List Char :=
  rules.foldl (fun written rule => replaceChar rule.1 rule.2 written) cs

theorem replaceInTurn_nil (rules : List (Char × List Char)) : replaceInTurn rules [] = [] := by
  induction rules with
  | nil => rfl
  | cons rule rules ih => exact ih

theorem replaceInTurn_append (rules : List (Char × List Char)) (as bs : List Char) :
    replaceInTurn rules (as ++ bs) = replaceInTurn rules as ++ replaceInTurn rules bs := by
  induction rules generalizing as bs with
  | nil => rfl
  | cons rule rules ih =>
    have hfirst : replaceChar rule.1 rule.2 (as ++ bs) =
        replaceChar rule.1 rule.2 as ++ replaceChar rule.1 rule.2 bs := List.flatMap_append
    rw [replaceInTurn, List.foldl_cons, hfirst]
    exact ih _ _

/-- Replacing in turn writes every character by itself. -/
theorem replaceInTurn_eq_flatMap {rules : List (Char × List Char)} {write : Char → List Char}
    (h : ∀ c, replaceInTurn rules [c] = write c) (cs : List Char) :
    replaceInTurn rules cs = cs.flatMap write := by
  induction cs with
  | nil => exact replaceInTurn_nil rules
  | cons c cs ih =>
    rw [List.flatMap_cons, ← ih, ← h, ← replaceInTurn_append, List.singleton_append]

end Chtl.Text
