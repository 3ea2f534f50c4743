import Chtl.Compile.Basic
import Chtl.Proofs.Outcome
import Mathlib.Data.List.Infix

/-!
# Comments on the page

A comment is written with a blank in every pair of hyphens, so that its text does not close it. The
pairs are taken from left to right and what comes of them is not looked at again. Where three
hyphens stand in a row, the third one and the second half of a pair make up another pair.
-/

set_option autoImplicit false
set_option linter.all false

namespace Chtl.Html

/-- Parting hyphens leaves the first character. -/
theorem hyphen_prefix_partHyphens (cs : List Char) : ['-'] <+: partHyphens cs ↔ ['-'] <+: cs := by
  fun_cases partHyphens cs <;> simp

theorem hyphen_prefix_of_pair {cs : List Char} (h : ['-', '-'] <+: cs) : ['-'] <+: cs :=
  (List.prefix_append ['-'] ['-']).trans h

/-- There is a pair of hyphens in a text with parted hyphens exactly if three stood in a row. -/
theorem pair_infix_partHyphens (cs : List Char) :
    ['-', '-'] <:+: partHyphens cs ↔ ['-', '-', '-'] <:+: cs := by
  induction cs using partHyphens.induct with
  | case1 cs ih =>
    -- The second hyphen of a parted pair is left in front of what follows.
    have hparted : ['-', '-'] <:+: '-' :: ' ' :: '-' :: partHyphens cs ↔
        ['-'] <+: partHyphens cs ∨ ['-', '-'] <:+: partHyphens cs := by
      simp [List.infix_cons_iff]
    have hrow : ['-', '-', '-'] <:+: '-' :: '-' :: cs ↔
        ['-'] <+: cs ∨ ['-', '-'] <+: cs ∨ ['-', '-', '-'] <:+: cs := by
      simp [List.infix_cons_iff]
    have hone : ['-'] <+: cs ∨ ['-', '-'] <+: cs ↔ ['-'] <+: cs :=
      or_iff_left_of_imp hyphen_prefix_of_pair
    rw [partHyphens, hparted, hrow, hyphen_prefix_partHyphens, ih, ← or_assoc, hone]
  | case2 c cs hsingle ih =>
    have hone : ¬ ('-' = c ∧ ['-'] <+: cs) := by
      rintro ⟨rfl, rest, rfl⟩
      exact hsingle rest rfl rfl
    have htwo : ¬ ('-' = c ∧ ['-', '-'] <+: cs) := fun h =>
      hone ⟨h.1, hyphen_prefix_of_pair h.2⟩
    rw [partHyphens.eq_2 c cs hsingle, List.infix_cons_iff, List.infix_cons_iff,
      List.cons_prefix_cons, List.cons_prefix_cons, hyphen_prefix_partHyphens, ih]
    simp only [hone, htwo, false_or]
  | case3 => simp [partHyphens]

-- Of three hyphens the last two stay together.
example : partHyphens ['a', '-', '-', '-'] = ['a', '-', ' ', '-', '-'] := by decide +kernel

/-- Whatever stands around it, a comment is written between the marks of a comment, and the text
between them holds a pair of hyphens exactly if three stand in a row in the comment. -/
theorem comment_holds_pair_iff (r : Resolver) (parent : Option String) (value : String)
    (span : Span) (s : GenState) :
    ∃ mark inner, (node r parent (.comment value span)).run.run s = (.ok [mark], s) ∧
      mark.html = "<!-- " ++ String.ofList inner ++ " -->" ∧
      (['-', '-'] <:+: inner ↔ ['-', '-', '-'] <:+: value.toList) :=
  ⟨.comment value, partHyphens value.toList, rfl, rfl, pair_infix_partHyphens _⟩

/-- Three hyphens close the comment, and what stands behind them becomes markup of the page. -/
theorem comment_closed_by_hyphens :
    (∃ compiled, compile "-- a---><i>".toList {} = .ok compiled ∧
      compiled.bundle.html = "<!-- " ++ "a- --><i>" ++ " -->") ∧
    ['-', '-'] <:+: "a- --><i>".toList := by
  constructor
  · decide +kernel
  · exact ⟨"a- ".toList, "><i>".toList, rfl⟩

end Chtl.Html
