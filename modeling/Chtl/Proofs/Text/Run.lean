import Chtl.Proofs.Text.Basic
import Mathlib.Data.List.Infix

/-!
# Runs of name characters

A run is a stretch of name characters with none before it and none behind it. A text that is read on
loses runs and never gains one, and it loses the run that a name was read from.
-/

set_option autoImplicit false
set_option linter.all false

namespace Chtl.Text

/-- How often a word is a whole run of a text that stands behind the character `before`. -/
def runs (word : List Char) : (before : Option Char) → List Char → Nat
  | _, [] => 0
  | before, c :: cs =>
    (if !before.any isNameChar && (c :: cs).takeWhile isNameChar == word then 1 else 0) +
      runs word (some c) cs

variable {word : List Char} {before : Option Char}

theorem getLast?_cons_or (c : Char) (cs : List Char) (before : Option Char) :
    (c :: cs).getLast?.or before = cs.getLast?.or (some c) := by
  cases h : cs.getLast? <;> simp [List.getLast?_cons, h]

theorem runs_drop_le (word : List Char) (before : Option Char) (cs : List Char) (n : Nat) :
    runs word ((cs.take n).getLast?.or before) (cs.drop n) ≤ runs word before cs := by
  induction cs generalizing before n with
  | nil => simp [runs]
  | cons c cs ih =>
    cases n with
    | zero => exact Nat.le_refl _
    | succ n =>
      have hrest := ih (some c) n
      rw [List.take_succ_cons, List.drop_succ_cons, getLast?_cons_or, runs]
      omega

/-- Where a run begins, reading on takes it away. -/
theorem runs_read_le {cs : List Char} (hbefore : before.any isNameChar = false)
    (hname : cs.takeWhile isNameChar ≠ []) {n : Nat} (hn : n ≠ 0) :
    (if cs.takeWhile isNameChar = word then 1 else 0) +
        runs word ((cs.take n).getLast?.or before) (cs.drop n) ≤ runs word before cs := by
  obtain ⟨n, rfl⟩ := Nat.exists_eq_succ_of_ne_zero hn
  cases cs with
  | nil => exact absurd rfl hname
  | cons c cs =>
    have hrest := runs_drop_le word (some c) cs n
    rw [List.take_succ_cons, List.drop_succ_cons, getLast?_cons_or, runs, hbefore]
    simp only [Bool.not_false, Bool.true_and, beq_iff_eq]
    omega

/-- No run begins in a text if none that begins there is the word. -/
theorem runs_text {a b : List Char}
    (h : ∀ u, u ≠ [] → u <:+ a → (u ++ b).takeWhile isNameChar ≠ word) :
    runs word before (a ++ b) = runs word (a.getLast?.or before) b := by
  induction a generalizing before with
  | nil => rfl
  | cons c a ih =>
    have hfirst : (c :: (a ++ b)).takeWhile isNameChar ≠ word :=
      h (c :: a) (by simp) (List.suffix_refl _)
    have hrest : runs word (some c) (a ++ b) = runs word (a.getLast?.or (some c)) b :=
      ih fun u hu hsuffix => h u hu (hsuffix.trans (List.suffix_cons c a))
    rw [List.cons_append, runs, hrest, getLast?_cons_or]
    simp [hfirst]

theorem runs_names {a b : List Char} (ha : ∀ c ∈ a, isNameChar c = true)
    (hbefore : before.any isNameChar = true) :
    runs word before (a ++ b) = runs word (a.getLast?.or before) b := by
  induction a generalizing before with
  | nil => rfl
  | cons c a ih =>
    have hrest : runs word (some c) (a ++ b) = runs word (a.getLast?.or (some c)) b :=
      ih (fun d hd => ha d (List.mem_cons_of_mem c hd)) (ha c List.mem_cons_self)
    rw [List.cons_append, runs, hrest, getLast?_cons_or, hbefore]
    simp

/-- A name adds at most one run, and that only if the run begins with it. -/
theorem runs_name_le (word : List Char) (before : Option Char) {a : List Char} (b : List Char)
    (ha : ∀ c ∈ a, isNameChar c = true) (hne : a ≠ []) :
    ∃ last, runs word before (a ++ b) ≤ (if a <+: word then 1 else 0) + runs word last b := by
  cases a with
  | nil => exact absurd rfl hne
  | cons c a =>
    have hrest : runs word (some c) (a ++ b) = runs word (a.getLast?.or (some c)) b :=
      runs_names (fun d hd => ha d (List.mem_cons_of_mem c hd)) (ha c List.mem_cons_self)
    refine ⟨a.getLast?.or (some c), ?_⟩
    have htake : (c :: (a ++ b)).takeWhile isNameChar = c :: a ++ b.takeWhile isNameChar :=
      List.takeWhile_append_of_pos ha
    rw [List.cons_append, runs, hrest, htake]
    have hprefix (h : c :: a ++ b.takeWhile isNameChar = word) : c :: a <+: word := ⟨_, h⟩
    split_ifs <;> simp_all

end Chtl.Text
