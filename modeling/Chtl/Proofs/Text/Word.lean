import Chtl.Proofs.Text.Basic
import Mathlib.Data.List.Infix

/-!
# Words that cannot straddle

A word here is made of ASCII letters, digits and underscores and holds a capital `H`. Where two
texts meet at any other character, a word that is part of both together is part of one of them; and
fixed code without that letter holds no such word. So a word gets into a text that is put together
from pieces only as part of a piece.
-/

set_option autoImplicit false
set_option linter.all false

namespace Chtl.Text

def isWordLetter (c : Char) : Bool := isAsciiAlnum c || c == '_'

/-- The letter tells words from the fixed code around them. -/
structure IsWord (p : List Char) : Prop where
  holds : 'H' ∈ p
  letters : ∀ c ∈ p, isWordLetter c = true

/-- Whether one of some texts holds a part. -/
def Held (p : List Char) (texts : List String) : Prop := ∃ t ∈ texts, p <:+: t.toList

@[simp] theorem held_nil (p : List Char) : ¬ Held p [] := by simp [Held]

@[simp] theorem held_cons (p : List Char) (t : String) (texts : List String) :
    Held p (t :: texts) ↔ p <:+: t.toList ∨ Held p texts := by
  simp [Held]

@[simp] theorem held_append (p : List Char) (texts more : List String) :
    Held p (texts ++ more) ↔ Held p texts ∨ Held p more := by
  simp [Held, or_and_right, exists_or]

@[simp] theorem held_flatMap {α : Type} (p : List Char) (f : α → List String) (xs : List α) :
    Held p (xs.flatMap f) ↔ ∃ x ∈ xs, Held p (f x) := by
  constructor
  · rintro ⟨t, ht, h⟩
    obtain ⟨x, hx, htx⟩ := List.mem_flatMap.mp ht
    exact ⟨x, hx, t, htx, h⟩
  · rintro ⟨x, hx, t, htx, h⟩
    exact ⟨t, List.mem_flatMap.mpr ⟨x, hx, htx⟩, h⟩

/-- Whether no word goes on across the end of the text. -/
def endsApart (cs : List Char) : Bool := cs.getLast?.all fun c => !isWordLetter c

/-- Whether no word goes on across the front of the text. -/
def startsApart (cs : List Char) : Bool := cs.head?.all fun c => !isWordLetter c

@[simp] theorem endsApart_concat (a : List Char) (x : Char) :
    endsApart (a ++ [x]) = !isWordLetter x := by
  simp [endsApart]

theorem startsApart_append {a b : List Char} (ha : startsApart a = true)
    (hb : startsApart b = true) : startsApart (a ++ b) = true := by
  cases a with
  | nil => exact hb
  | cons x a => exact ha

theorem endsApart_append_of_ne_nil {a b : List Char} (hb : b ≠ []) :
    endsApart (a ++ b) = endsApart b := by
  rw [endsApart, endsApart, List.getLast?_append_of_ne_nil a hb]

theorem endsApart_append {a b : List Char} (ha : endsApart a = true) (hb : endsApart b = true) :
    endsApart (a ++ b) = true := by
  by_cases hnil : b = []
  · rw [hnil, List.append_nil, ha]
  · rw [endsApart_append_of_ne_nil hnil, hb]

theorem endsApart_flatMap {α : Type} {f : α → List Char} {xs : List α}
    (h : ∀ x ∈ xs, endsApart (f x) = true) : endsApart (xs.flatMap f) = true := by
  induction xs with
  | nil => rfl
  | cons x xs ih =>
    rw [List.flatMap_cons]
    exact endsApart_append (h x List.mem_cons_self) (ih fun y hy => h y (List.mem_cons_of_mem x hy))

theorem infix_append_cons_iff {p a b : List Char} {x : Char} (hx : x ∉ p) :
    p <:+: a ++ x :: b ↔ p <:+: a ∨ p <:+: b := by
  constructor
  · intro h
    rcases List.infix_append_iff.mp h with h | h | ⟨l, r, rfl, hl, hr⟩
    · exact .inl h
    · rcases List.infix_cons_iff.mp h with h | h
      · obtain rfl | ⟨t, rfl, -⟩ := List.prefix_cons_iff.mp h
        · exact .inl (List.nil_infix)
        · exact absurd List.mem_cons_self hx
      · exact .inr h
    · obtain rfl | ⟨t, rfl, -⟩ := List.prefix_cons_iff.mp hr
      · rw [List.append_nil]
        exact .inl hl.isInfix
      · simp at hx
  · rintro (h | h)
    · exact h.trans (List.prefix_append a _).isInfix
    · exact (h.trans (List.infix_cons (List.infix_refl b))).trans (List.suffix_append a _).isInfix

namespace IsWord

variable {p : List Char}

theorem not_mem (hp : IsWord p) {x : Char} (hx : isWordLetter x = false) : x ∉ p := by
  intro hmem
  rw [hp.letters x hmem] at hx
  cases hx

theorem not_part (hp : IsWord p) {cs : List Char} (h : 'H' ∉ cs) : ¬ p <:+: cs :=
  fun hi => h (hi.subset hp.holds)

theorem not_infix_nil (hp : IsWord p) : ¬ p <:+: [] := hp.not_part (by simp)

/-- A word in two texts together is in one of them, if the first ends apart. -/
theorem append_iff_of_endsApart (hp : IsWord p) {a b : List Char} (h : endsApart a = true) :
    p <:+: a ++ b ↔ p <:+: a ∨ p <:+: b := by
  rcases List.eq_nil_or_concat a with rfl | ⟨front, x, rfl⟩
  · simp [hp.not_infix_nil]
  · have hx : x ∉ p := hp.not_mem (by simpa [endsApart] using h)
    rw [List.concat_eq_append, List.append_assoc, List.singleton_append, infix_append_cons_iff hx,
      infix_append_cons_iff hx]
    simp [hp.not_infix_nil]

theorem append_iff_of_startsApart (hp : IsWord p) {a b : List Char} (h : startsApart b = true) :
    p <:+: a ++ b ↔ p <:+: a ∨ p <:+: b := by
  cases b with
  | nil => simp [hp.not_infix_nil]
  | cons x b =>
    have hx : x ∉ p := hp.not_mem (by simpa [startsApart] using h)
    have hb : p <:+: x :: b ↔ p <:+: b := by
      simpa [hp.not_infix_nil] using infix_append_cons_iff (a := []) (b := b) hx
    rw [infix_append_cons_iff hx, hb]

theorem code_append (hp : IsWord p) {k b : List Char} (hk : 'H' ∉ k) (he : endsApart k = true) :
    p <:+: k ++ b ↔ p <:+: b := by
  rw [hp.append_iff_of_endsApart he]
  exact or_iff_right (hp.not_part hk)

theorem append_code (hp : IsWord p) {a k : List Char} (hk : 'H' ∉ k) (hs : startsApart k = true) :
    p <:+: a ++ k ↔ p <:+: a := by
  rw [hp.append_iff_of_startsApart hs]
  exact or_iff_left (hp.not_part hk)

/-- A word in texts in a row is in one of them, if they all end apart. -/
theorem flatMap_iff (hp : IsWord p) {α : Type} {f : α → List Char} {xs : List α}
    (h : ∀ x ∈ xs, endsApart (f x) = true) : p <:+: xs.flatMap f ↔ ∃ x ∈ xs, p <:+: f x := by
  induction xs with
  | nil => simp [hp.not_infix_nil]
  | cons x xs ih =>
    rw [List.flatMap_cons, hp.append_iff_of_endsApart (h x List.mem_cons_self),
      ih fun y hy => h y (List.mem_cons_of_mem x hy)]
    simp

theorem not_blank (hp : IsWord p) {x : Char} (hx : isBlank x = true) : x ∉ p := by
  refine hp.not_mem ?_
  have hname := not_isNameChar_of_isBlank hx
  simp only [isNameChar, Bool.or_eq_false_iff] at hname
  simp [isWordLetter, hname.1.1, hname.1.2]

theorem dropWhile_blank_iff (hp : IsWord p) (cs : List Char) :
    p <:+: cs.dropWhile isBlank ↔ p <:+: cs := by
  induction cs with
  | nil => simp
  | cons c cs ih =>
    by_cases hc : isBlank c = true
    · have hcp := infix_append_cons_iff (a := []) (b := cs) (hp.not_blank hc)
      rw [List.dropWhile_cons_of_pos hc, ih]
      simpa [hp.not_infix_nil] using hcp.symm
    · rw [List.dropWhile_cons_of_neg hc]

/-- Trimming takes no word away. -/
theorem trim_iff (hp : IsWord p) (cs : List Char) : p <:+: trim cs ↔ p <:+: cs := by
  have hr : IsWord p.reverse := ⟨by simpa using hp.holds, by simpa using hp.letters⟩
  rw [trim, trimRight, ← List.reverse_infix, List.reverse_reverse, hr.dropWhile_blank_iff,
    List.reverse_infix, trimLeft, hp.dropWhile_blank_iff]

end IsWord

end Chtl.Text
