import Mathlib.Algebra.Group.Nat.Even
import Mathlib.Data.List.TakeWhile

/-!
# Backslashes in pairs

A backslash takes the next character along, be that a quote or another backslash. So a quote in a
quoted text ends it exactly if the backslashes right before it go in pairs. Whether they do is seen
from the quote alone, without reading the text from its start.
-/

set_option autoImplicit false
set_option linter.all false

namespace Chtl.Text

/-- The number of backslashes that a text ends in. -/
def backslashes (cs : List Char) : Nat := (cs.reverse.takeWhile (· == '\\')).length

/-- The backslashes that the text ends in go in pairs, and none takes along what follows. -/
def Paired (cs : List Char) : Prop := Even (backslashes cs)

instance (cs : List Char) : Decidable (Paired cs) :=
  inferInstanceAs (Decidable (Even (backslashes cs)))

theorem backslashes_append (front cs : List Char) :
    backslashes (front ++ cs) =
      if backslashes cs = cs.length then cs.length + backslashes front else backslashes cs := by
  unfold backslashes
  rw [List.reverse_append, List.takeWhile_append, List.length_reverse]
  split_ifs
  · rw [List.length_append, List.length_reverse]
  · rfl

/-- What stands in front of a text and is paired itself does not matter. -/
theorem paired_append {front : List Char} (h : Paired front) (cs : List Char) :
    Paired (front ++ cs) ↔ Paired cs := by
  unfold Paired at *
  rw [backslashes_append]
  split_ifs with hall
  · rw [hall, Nat.even_add, iff_true_right h]
  · rfl

theorem paired_nil : Paired [] := by decide

theorem paired_singleton {c : Char} (hc : c ≠ '\\') : Paired [c] := by
  simp [Paired, backslashes, hc]

theorem paired_pair (c : Char) : Paired ['\\', c] := by
  by_cases hc : c = '\\'
  · subst hc
    decide
  · simp [Paired, backslashes, hc]

theorem not_paired_backslash : ¬ Paired ['\\'] := by decide

/-! ## Quotes that end a text -/

/-- A quote stands in the text that no backslash takes along. -/
def Terminated (quote : Char) (cs : List Char) : Prop :=
  ∃ before after, cs = before ++ quote :: after ∧ Paired before

variable {quote : Char}

theorem not_terminated_nil : ¬ Terminated quote [] := by
  rintro ⟨before, after, hsplit, -⟩
  simp at hsplit

theorem not_terminated_singleton {c : Char} (hc : c ≠ quote) : ¬ Terminated quote [c] := by
  rintro ⟨before, after, hsplit, -⟩
  have hmem : quote ∈ [c] := by simp [hsplit]
  exact hc (List.mem_singleton.mp hmem).symm

theorem not_terminated_pair (hquote : quote ≠ '\\') (c : Char) : ¬ Terminated quote ['\\', c] := by
  rintro ⟨before, after, hsplit, hpaired⟩
  cases before with
  | nil => exact hquote (List.cons.inj hsplit).1.symm
  | cons x before =>
    obtain ⟨rfl, hrest⟩ := List.cons.inj hsplit
    obtain rfl : before = [] := by
      cases before with
      | nil => rfl
      | cons y before => simp at hrest
    exact not_paired_backslash hpaired

theorem terminated_append {front : List Char} (h : Paired front) (cs : List Char) :
    Terminated quote (front ++ cs) ↔ Terminated quote front ∨ Terminated quote cs := by
  constructor
  · rintro ⟨before, after, hsplit, hpaired⟩
    rcases List.append_eq_append_iff.mp hsplit with ⟨more, rfl, hcs⟩ | ⟨more, rfl, hmore⟩
    · exact .inr ⟨more, after, hcs, (paired_append h more).mp hpaired⟩
    · cases more with
      | nil => exact .inr ⟨[], after, hmore.symm, paired_nil⟩
      | cons x more =>
        obtain ⟨rfl, -⟩ := List.cons.inj hmore
        exact .inl ⟨before, more, rfl, hpaired⟩
  · rintro (⟨before, after, rfl, hpaired⟩ | ⟨before, after, rfl, hpaired⟩)
    · exact ⟨before, after ++ cs, by simp, hpaired⟩
    · exact ⟨front ++ before, after, by simp, (paired_append h before).mpr hpaired⟩

theorem terminated_quote (quote : Char) (cs : List Char) : Terminated quote (quote :: cs) :=
  ⟨[], cs, rfl, paired_nil⟩

theorem terminated_plain {c : Char} (hback : c ≠ '\\') (hc : c ≠ quote) (cs : List Char) :
    Terminated quote (c :: cs) ↔ Terminated quote cs :=
  (terminated_append (paired_singleton hback) cs).trans
    (or_iff_right (not_terminated_singleton hc))

theorem terminated_pair (hquote : quote ≠ '\\') (c : Char) (cs : List Char) :
    Terminated quote ('\\' :: c :: cs) ↔ Terminated quote cs :=
  (terminated_append (paired_pair c) cs).trans (or_iff_right (not_terminated_pair hquote c))

/-! ## Texts that are written character by character -/

theorem not_terminated_flatMap {write : Char → List Char}
    (h : ∀ c, Paired (write c) ∧ ¬ Terminated quote (write c)) (cs : List Char) :
    ¬ Terminated quote (cs.flatMap write) := by
  induction cs with
  | nil => exact not_terminated_nil
  | cons c cs ih =>
    rw [List.flatMap_cons, terminated_append (h c).1]
    exact not_or.mpr ⟨(h c).2, ih⟩

theorem paired_flatMap {write : Char → List Char} (h : ∀ c, Paired (write c)) (cs : List Char) :
    Paired (cs.flatMap write) := by
  induction cs with
  | nil => exact paired_nil
  | cons c cs ih => exact (paired_append (h c) _).mpr ih

end Chtl.Text
