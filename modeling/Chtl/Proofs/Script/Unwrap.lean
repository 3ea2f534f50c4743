import Chtl.Proofs.Text.Basic
import Chtl.Script.Literal
import Mathlib.Data.List.TakeWhile

/-!
# Taking off double braces

What is taken off a text, piece by piece: text without opening braces stays as it is, and an operand
loses exactly its own braces if it is written on one line and closed by the first closing braces.
-/

set_option autoImplicit false
set_option linter.all false

namespace Chtl.Script

open Text

/-- No braces are opened in the text, nor by it together with what follows. -/
def OpensNone (cs : List Char) : Prop := ¬ ['{', '{'] <:+: cs ++ ['{']

/-- The code of an operand whose braces can be taken off: there is no blank at its ends, it is on one
line, and no braces are closed in it. -/
structure Removable (code : List Char) : Prop where
  head : ∀ c ∈ code.head?, isBlank c = false
  last : ∀ c ∈ code.getLast?, isBlank c = false
  line : '\n' ∉ code
  braces : ¬ ['}', '}'] <:+: code ++ ['}']

theorem Removable.of_ends {code : List Char} {c d : Char} (hhead : code.head? = some c)
    (hlast : code.getLast? = some d) (hc : isBlank c = false) (hd : isBlank d = false)
    (hline : '\n' ∉ code) (hbraces : ¬ ['}', '}'] <:+: code ++ ['}']) : Removable code where
  head x hx := by
    rw [hhead] at hx
    exact Option.some.inj hx ▸ hc
  last x hx := by
    rw [hlast] at hx
    exact Option.some.inj hx ▸ hd
  line := hline
  braces := hbraces

theorem operand?_eq_none {c : Char} {cs : List Char} (h : ¬ ['{', '{'] <+: c :: cs) :
    operand? (c :: cs) = none := by
  unfold operand?
  split
  · rename_i rest heq
    rw [heq] at h
    exact absurd ⟨rest, rfl⟩ h
  · rfl

theorem unwrapOperands_append {cs : List Char} (h : OpensNone cs) (rest : List Char) :
    unwrapOperands (cs ++ rest) = cs ++ unwrapOperands rest := by
  induction cs with
  | nil => rfl
  | cons c cs ih =>
    have hcs : OpensNone cs := fun hin => h (hin.trans (List.suffix_cons c _).isInfix)
    have hnone : operand? (c :: (cs ++ rest)) = none := by
      refine operand?_eq_none fun hprefix => h ?_
      obtain ⟨tail, htail⟩ := hprefix
      obtain rfl : '{' = c := (List.cons.inj htail).1
      cases cs with
      | nil => exact List.infix_rfl
      | cons c' cs =>
        obtain ⟨rfl, -⟩ := List.cons.inj (List.cons.inj htail).2
        exact ⟨[], cs ++ ['{'], rfl⟩
    rw [List.cons_append, unwrapOperands, hnone, List.cons_append, ih hcs]

/-- Closing braces are not found before the end of the code. -/
theorem operandLength?_append {code : List Char} (hlast : ∀ c ∈ code.getLast?, isBlank c = false)
    (hline : '\n' ∉ code) (hbraces : ¬ ['}', '}'] <:+: code ++ ['}']) (rest : List Char) :
    operandLength? (code ++ '}' :: '}' :: rest) = some code.length := by
  induction code with
  | nil => rfl
  | cons c cs ih =>
    have hnot : ¬ ['}', '}'] <+: ((c :: cs) ++ '}' :: '}' :: rest).dropWhile isBlank := by
      intro hprefix
      have hne : (c :: cs).dropWhile isBlank ≠ [] := by
        intro hnil
        have hblank := List.dropWhile_eq_nil_iff.mp hnil _ (List.getLast_mem (List.cons_ne_nil c cs))
        rw [hlast _ (List.getLast?_eq_some_getLast (List.cons_ne_nil c cs))] at hblank
        cases hblank
      rw [List.dropWhile_append, if_neg (by simpa using hne)] at hprefix
      -- Two braces that begin in the code end at the latest with the first brace behind it.
      have hshort : ['}', '}'] <+: (c :: cs).dropWhile isBlank ++ ['}'] := by
        refine List.prefix_of_prefix_length_le hprefix ⟨'}' :: rest, by simp⟩ ?_
        have := List.length_pos_iff.mpr hne
        simp only [List.length_append, List.length_cons, List.length_nil]
        omega
      obtain ⟨front, hfront⟩ := List.dropWhile_suffix (l := c :: cs) isBlank
      refine hbraces (hshort.isInfix.trans ⟨front, [], ?_⟩)
      rw [List.append_nil, ← List.append_assoc, hfront]
    have hcs : operandLength? (cs ++ '}' :: '}' :: rest) = some cs.length := by
      refine ih (fun x hx => hlast x ?_) (fun hmem => hline (List.mem_cons_of_mem c hmem))
        fun hin => hbraces (hin.trans (List.suffix_cons c _).isInfix)
      rw [List.getLast?_cons, Option.mem_def.mp hx]
      rfl
    have hc : c ≠ '\n' := by
      rintro rfl
      exact hline List.mem_cons_self
    rw [List.cons_append, operandLength?, if_neg (by simpa [startsWith_iff] using hnot),
      if_neg hc, hcs]
    rfl

/-- An operand loses its braces and nothing else. -/
theorem unwrapOperands_operand {code : List Char} (h : Removable code) (hne : code ≠ [])
    (rest : List Char) :
    unwrapOperands ('{' :: '{' :: (code ++ '}' :: '}' :: rest)) = code ++ unwrapOperands rest := by
  have hlength := operandLength?_append h.last h.line h.braces rest
  have hlead : (code ++ '}' :: '}' :: rest).takeWhile isBlank = [] := by
    obtain ⟨c, cs, rfl⟩ := List.exists_cons_of_ne_nil hne
    simp [h.head c rfl]
  have htrail : ('}' :: '}' :: rest).takeWhile isBlank = [] := rfl
  have hoperand : operand? ('{' :: '{' :: (code ++ '}' :: '}' :: rest)) =
      some (code, 2 + 0 + code.length + 0 + 2) := by
    rw [operand?, hlead]
    simp [hlength, htrail]
  have hdrop : ('{' :: (code ++ '}' :: '}' :: rest)).drop (2 + 0 + code.length + 0 + 2 - 1) =
      rest := by
    rw [show 2 + 0 + code.length + 0 + 2 - 1 = code.length + 2 + 1 by omega, List.drop_succ_cons,
      List.drop_length_add_append]
    rfl
  rw [unwrapOperands, hoperand]
  simp only [hdrop]

end Chtl.Script
