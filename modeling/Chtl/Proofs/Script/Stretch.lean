import Chtl.Proofs.Expr.Spans
import Chtl.Script.Entry

/-!
# Stretches of a text

A reader that goes into parts of a text keeps to stretches of it with their offsets, so the spans it
notes lie in the text. Stretches are cut off by counts of characters, by blanks around them, by
brackets and by separators.
-/

set_option autoImplicit false
set_option linter.all false

namespace Chtl.Text

/-- The characters stand in a text that begins at the offset `base`. -/
def Stretch (text : List Char) (base offset : Nat) (cs : List Char) : Prop :=
  ∃ before after, text = before ++ cs ++ after ∧ offset = base + size before

namespace Stretch

variable {text cs : List Char} {base offset : Nat}

theorem whole (text : List Char) (base : Nat) : Stretch text base base text :=
  ⟨[], [], by simp, rfl⟩

theorem part (lead rest : List Char) (h : Stretch text base offset (lead ++ (cs ++ rest))) :
    Stretch text base (offset + size lead) cs := by
  obtain ⟨before, after, rfl, rfl⟩ := h
  exact ⟨before ++ lead, rest ++ after, by simp, by simp [Nat.add_assoc]⟩

theorem front {rest : List Char} (h : Stretch text base offset (cs ++ rest)) :
    Stretch text base offset cs :=
  h.part [] rest

theorem behind {lead : List Char} (h : Stretch text base offset (lead ++ cs)) :
    Stretch text base (offset + size lead) cs :=
  Stretch.part lead [] (by rwa [List.append_nil])

theorem take (h : Stretch text base offset cs) (n : Nat) : Stretch text base offset (cs.take n) := by
  rw [← List.take_append_drop n cs] at h
  exact h.front

theorem drop (h : Stretch text base offset cs) (n : Nat) :
    Stretch text base (offset + size (cs.take n)) (cs.drop n) :=
  behind (by rwa [List.take_append_drop])

theorem tail {c : Char} (h : Stretch text base offset (c :: cs)) (hc : c.utf8Size = 1) :
    Stretch text base (offset + 1) cs := by
  have hdrop := h.drop 1
  simpa [hc] using hdrop

/-- A span that starts with the stretch and ends in it lies in the text. -/
theorem between (h : Stretch text base offset cs) {n : Nat} (hn : n ≤ size cs) :
    Span.Between base (base + size text) ⟨offset, offset + n⟩ := by
  obtain ⟨before, after, rfl, rfl⟩ := h
  refine ⟨Nat.le_add_right _ _, Nat.le_add_right _ _, ?_⟩
  simp only [size_append]
  omega

theorem span_take (h : Stretch text base offset cs) (n : Nat) :
    Span.Between base (base + size text) ⟨offset, offset + size (cs.take n)⟩ :=
  h.between (Expr.size_take_le n cs)

theorem span_between_takes (h : Stretch text base offset cs) {m n : Nat} (hmn : m ≤ n) :
    Span.Between base (base + size text) ⟨offset + size (cs.take m), offset + size (cs.take n)⟩ := by
  have hle : size (cs.take m) ≤ size (cs.take n) := by
    rw [← Nat.min_eq_left hmn, ← List.take_take]
    exact Expr.size_take_le m _
  obtain ⟨hlow, -, hhigh⟩ := h.span_take n
  exact ⟨Nat.le_trans hlow (Nat.le_add_right _ _), Nat.add_le_add_left hle _, hhigh⟩

theorem span (h : Stretch text base offset cs) :
    Span.Between base (base + size text) ⟨offset, offset + size cs⟩ :=
  h.between (Nat.le_refl _)

theorem trim (h : Stretch text base offset cs) :
    Stretch text base (offset + size (cs.takeWhile isBlank)) (trim cs) := by
  have htail : trimRight (cs.dropWhile isBlank) ++
      ((cs.dropWhile isBlank).reverse.takeWhile isBlank).reverse = cs.dropWhile isBlank := by
    rw [trimRight, ← List.reverse_append, List.takeWhile_append_dropWhile, List.reverse_reverse]
  rw [← List.takeWhile_append_dropWhile (p := isBlank) (l := cs), ← htail] at h
  exact h.part

end Stretch

end Chtl.Text

namespace Chtl.Script

open Text

/-! ## Parts between separators -/

theorem consPart_ne_nil (taken : List Char) (parts : List (List Char)) : consPart taken parts ≠ [] := by
  cases parts <;> simp [consPart]

theorem splitTopLevel_ne_nil (separator : Char) (depth : Int) (cs : List Char) :
    splitTopLevel separator depth cs ≠ [] := by
  fun_cases splitTopLevel separator depth cs <;> simp [consPart_ne_nil]

theorem intercalate_consPart (separator : Char) (taken : List Char) {parts : List (List Char)}
    (h : parts ≠ []) :
    [separator].intercalate (consPart taken parts) = taken ++ [separator].intercalate parts := by
  cases parts with
  | nil => exact absurd rfl h
  | cons part parts => cases parts <;> simp [consPart, List.intercalate]

/-- The parts make up the text again. -/
theorem intercalate_splitTopLevel (separator : Char) (depth : Int) (cs : List Char) :
    [separator].intercalate (splitTopLevel separator depth cs) = cs := by
  fun_induction splitTopLevel separator depth cs with
  | case1 => simp [List.intercalate]
  | case2 depth c rest n hn ih =>
    rw [intercalate_consPart _ _ (splitTopLevel_ne_nil _ _ _), ih, List.cons_append,
      List.take_append_drop]
  | case3 depth c rest hn hopen ih =>
    rw [intercalate_consPart _ _ (splitTopLevel_ne_nil _ _ _), ih, List.singleton_append]
  | case4 depth c rest hn hopen hclose ih =>
    rw [intercalate_consPart _ _ (splitTopLevel_ne_nil _ _ _), ih, List.singleton_append]
  | case5 depth c rest hn hopen hclose hsep ih =>
    obtain ⟨first, more, hparts⟩ := List.exists_cons_of_ne_nil (splitTopLevel_ne_nil separator depth rest)
    rw [hparts] at ih ⊢
    rw [hsep.1]
    simpa [List.intercalate] using ih
  | case6 depth c rest hn hopen hclose hsep ih =>
    rw [intercalate_consPart _ _ (splitTopLevel_ne_nil _ _ _), ih, List.singleton_append]

variable {text cs : List Char} {base offset : Nat}

theorem stretch_locate {separator : Char} (hsize : separator.utf8Size = 1)
    {parts : List (List Char)} (h : Stretch text base offset ([separator].intercalate parts)) :
    ∀ p ∈ locate offset parts, Stretch text base p.1 p.2 := by
  induction parts generalizing offset with
  | nil => simp [locate]
  | cons part parts ih =>
    rw [locate]
    cases parts with
    | nil =>
      have hpart : Stretch text base offset part := by simpa [List.intercalate] using h
      simpa [locate] using hpart
    | cons next parts =>
      have hjoin : [separator].intercalate (part :: next :: parts) =
          part ++ (separator :: [separator].intercalate (next :: parts)) := by
        simp [List.intercalate]
      rw [hjoin] at h
      exact List.forall_mem_cons.mpr ⟨h.front, ih (h.behind.tail hsize)⟩

/-- The parts of a stretch are stretches. -/
theorem stretch_partsAt {separator : Char} (hsize : separator.utf8Size = 1)
    (h : Stretch text base offset cs) :
    ∀ p ∈ partsAt separator offset cs, Stretch text base p.1 p.2 := by
  rw [← intercalate_splitTopLevel separator 0 cs] at h
  exact stretch_locate hsize h

theorem stretch_listItems (h : Stretch text base offset cs) :
    ∀ p ∈ listItems offset cs, Stretch text base p.1 p.2 := by
  intro p hp
  obtain ⟨q, hq, rfl⟩ := List.mem_map.mp hp
  exact (stretch_partsAt rfl h q (List.mem_filter.mp hq).1).trim

theorem eq_of_between? {left right : Char} {inner : List Char}
    (h : between? left right cs = some inner) : cs = left :: (inner ++ [right]) := by
  unfold between? at h
  split at h
  · rename_i c rest
    split_ifs at h with hends
    obtain ⟨rfl, hlast⟩ := hends
    obtain ⟨front, rfl⟩ := List.getLast?_eq_some_iff.mp hlast
    cases h
    simp
  · cases h

theorem stretch_between? {left right : Char} (hsize : left.utf8Size = 1) {inner : List Char}
    (hin : between? left right cs = some inner) (h : Stretch text base offset cs) :
    Stretch text base (offset + 1) inner := by
  rw [eq_of_between? hin] at h
  exact (h.tail hsize).front

end Chtl.Script
