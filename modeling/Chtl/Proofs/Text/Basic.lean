import Chtl.Text.Basic
import Mathlib.Data.List.Infix
import Mathlib.Tactic.Common

/-!
# Texts and characters

What it means that a text begins with another one, and which characters stand in names and numbers.
-/

set_option autoImplicit false
set_option linter.all false

namespace Chtl.Text

/-- A character that neither the end nor another character follows is not there. -/
theorem ne_of_not_followed {x c : Char} {cs : List Char} (hend : c = x → cs = [] → False)
    (hmore : ∀ d ds, c = x → cs = d :: ds → False) : c ≠ x := by
  rintro rfl
  cases cs with
  | nil => exact hend rfl rfl
  | cons d ds => exact hmore d ds rfl rfl

theorem after?_eq_some_iff {lead cs rest : List Char} :
    after? lead cs = some rest ↔ cs = lead ++ rest := by
  induction lead generalizing cs with
  | nil => simp [after?, eq_comm]
  | cons l ls ih =>
    cases cs with
    | nil => simp [after?]
    | cons c cs =>
      by_cases h : l = c
      · simp [after?, h, ih]
      · simp [after?, h, Ne.symm h]

theorem after?_cons_of_ne {l c : Char} (h : l ≠ c) (ls cs : List Char) :
    after? (l :: ls) (c :: cs) = none := if_neg h

theorem startsWith_cons_self (c : Char) (cs lead : List Char) :
    startsWith (c :: cs) (c :: lead) = startsWith cs lead := by
  rw [startsWith, after?, if_pos rfl, startsWith]

theorem startsWith_cons_of_ne {l c : Char} (h : l ≠ c) (ls cs : List Char) :
    startsWith (c :: cs) (l :: ls) = false := by
  rw [startsWith, after?_cons_of_ne h, Option.isSome_none]

theorem startsWith_iff {cs lead : List Char} : startsWith cs lead = true ↔ lead <+: cs := by
  rw [startsWith, Option.isSome_iff_exists]
  exact exists_congr fun rest => after?_eq_some_iff.trans eq_comm

/-- A text that is taken as long as `p` holds ends where it does not. -/
theorem head?_drop_takeWhile (p : Char → Bool) (cs : List Char) :
    ((cs.drop (cs.takeWhile p).length).head?.any p) = false := by
  induction cs with
  | nil => rfl
  | cons c cs ih =>
    by_cases hc : p c = true
    · rw [List.takeWhile_cons_of_pos hc]
      exact ih
    · rw [List.takeWhile_cons_of_neg hc]
      simpa using hc

theorem drop_of_find? {needle cs : List Char} {n : Nat} (h : find? needle cs = some n) :
    needle <+: cs.drop n := by
  induction cs generalizing n with
  | nil =>
    rw [find?] at h
    split_ifs at h with hempty
    rw [List.isEmpty_iff.mp hempty]
    exact List.nil_prefix
  | cons c cs ih =>
    rw [find?] at h
    split_ifs at h with hstarts
    · cases h
      obtain ⟨rest, hrest⟩ := Option.isSome_iff_exists.mp hstarts
      exact ⟨rest, (after?_eq_some_iff.mp hrest).symm⟩
    · obtain ⟨m, hm, rfl⟩ := Option.map_eq_some_iff.mp h
      exact ih hm

theorem startsWith_append_of_le {cs lead : List Char} (h : lead.length ≤ cs.length)
    (more : List Char) : startsWith (cs ++ more) lead = startsWith cs lead := by
  induction lead generalizing cs with
  | nil => cases cs <;> simp [startsWith, after?]
  | cons l ls ih =>
    cases cs with
    | nil => simp at h
    | cons c cs =>
      rw [List.cons_append]
      by_cases hc : l = c
      · subst hc
        rw [startsWith_cons_self, startsWith_cons_self, ih (Nat.le_of_succ_le_succ h)]
      · rw [startsWith_cons_of_ne hc, startsWith_cons_of_ne hc]

theorem length_le_of_startsWith {cs lead : List Char} (h : startsWith cs lead = true) :
    lead.length ≤ cs.length := by
  obtain ⟨rest, hrest⟩ := Option.isSome_iff_exists.mp h
  rw [after?_eq_some_iff.mp hrest]
  simp

theorem find?_append {needle cs : List Char} {n : Nat} (h : find? needle cs = some n)
    (more : List Char) : find? needle (cs ++ more) = some n ∧ n + needle.length ≤ cs.length := by
  induction cs generalizing n with
  | nil =>
    rw [find?] at h
    split_ifs at h with hneedle
    cases h
    rw [List.isEmpty_iff.mp hneedle]
    cases more <;> simp [find?, startsWith, after?]
  | cons c cs ih =>
    rw [find?] at h
    split_ifs at h with hstarts
    · cases h
      have hle := length_le_of_startsWith hstarts
      rw [List.cons_append, find?, ← List.cons_append, startsWith_append_of_le hle, if_pos hstarts]
      exact ⟨rfl, by simpa using hle⟩
    · obtain ⟨m, hm, rfl⟩ := Option.map_eq_some_iff.mp h
      obtain ⟨hmore, hle⟩ := ih hm
      have hlen : needle.length ≤ (c :: cs).length := by
        rw [List.length_cons]
        omega
      rw [List.cons_append, find?, ← List.cons_append, startsWith_append_of_le hlen,
        if_neg hstarts, hmore]
      refine ⟨rfl, ?_⟩
      rw [List.length_cons]
      omega

theorem isNameChar_of_isNameStart {c : Char} (h : isNameStart c = true) : isNameChar c = true := by
  simp only [isNameStart, isNameChar, isAsciiAlnum, Bool.or_eq_true] at h ⊢
  tauto

theorem not_isNameChar_of_isBlank {x : Char} (hx : isBlank x = true) : isNameChar x = false := by
  have hle (a b : Char) : a ≤ b ↔ a.toNat ≤ b.toNat := Iff.rfl
  have heq (a : Char) : x = a ↔ x.toNat = a.toNat := Char.toNat_inj.symm
  simp only [isBlank, Bool.or_eq_true, Bool.and_eq_true, decide_eq_true_eq, beq_iff_eq] at hx
  simp only [isNameChar, isAsciiAlnum, isAsciiLetter, isAsciiUpper, isAsciiLower, isAsciiDigit,
    Bool.or_eq_false_iff, Bool.and_eq_false_iff, decide_eq_false_iff_not, hle, beq_eq_false_iff_ne,
    ne_eq, heq]
  simp only [show 'A'.toNat = 65 from rfl, show 'Z'.toNat = 90 from rfl,
    show 'a'.toNat = 97 from rfl, show 'z'.toNat = 122 from rfl, show '0'.toNat = 48 from rfl,
    show '9'.toNat = 57 from rfl, show '_'.toNat = 95 from rfl, show '-'.toNat = 45 from rfl]
  omega

theorem isAsciiDigit_of_mem_toString {n : Nat} {c : Char} (hc : c ∈ (toString n).toList) :
    isAsciiDigit c = true :=
  Nat.isDigit_of_mem_toDigits (b := 10) (n := n) (by decide) (by decide) (by simpa using hc)

theorem toString_injective {m n : Nat} (h : toString m = toString n) : m = n := by
  have hdigits : m.repr.toList = n.repr.toList := congrArg String.toList h
  rw [Nat.toList_repr, Nat.toList_repr] at hdigits
  rw [← Nat.ofDigitChars_ten_toDigits (n := m), hdigits, Nat.ofDigitChars_ten_toDigits]

end Chtl.Text
