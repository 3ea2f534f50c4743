import Chtl.Proofs.Fragment.Offset
import Chtl.Proofs.Text.Bytes
import Mathlib.Order.Monotone.Defs

/-!
# The way back from the markup to the source

Offsets in the markup of a unit lead into its source without ever turning back. In the copy of a
text they lead to the same bytes, in a placeholder to the start of its block, and from the end on to
the end of the source. The offset is found in a table with a line for each fragment: the last line
that begins at the offset or before decides.
-/

set_option autoImplicit false
set_option linter.all false

namespace Chtl

open Text

theorem Consecutive.split {start stop : Nat} {before after : List Fragment}
    (h : Consecutive start stop (before ++ after)) :
    ∃ middle, Consecutive start middle before ∧ Consecutive middle stop after := by
  induction before generalizing start with
  | nil => exact ⟨start, rfl, h⟩
  | cons f before ih =>
    obtain ⟨hstart, hlt, hrest⟩ := h
    obtain ⟨middle, hbefore, hafter⟩ := ih hrest
    exact ⟨middle, ⟨hstart, hlt, hbefore⟩, hafter⟩

/-- What one of several fragments in a row holds, none of the others holds. -/
theorem Consecutive.contains_unique {start stop o : Nat} {before after : List Fragment}
    {f : Fragment} (h : Consecutive start stop (before ++ f :: after))
    (hf : f.range.contains o = true) {g : Fragment} (hg : g ∈ before ++ after) :
    g.range.contains o = false := by
  obtain ⟨middle, hbefore, hbegin, -, hafter⟩ := h.split
  simp only [Span.contains, Bool.and_eq_true, decide_eq_true_eq] at hf
  rw [Bool.eq_false_iff]
  simp only [Span.contains, ne_eq, Bool.and_eq_true, decide_eq_true_eq, not_and_or, not_lt, not_le]
  rcases List.mem_append.mp hg with hg | hg
  · have hstop := (hbefore.range_within hg).2
    omega
  · have hstart := hafter.start_le hg
    omega

namespace Scanned

/-! ## A table of offsets -/

/-- Where a fragment stands in the markup and in the source. A block is collapsed: all of its
placeholder stands for its start. -/
structure Line where
  markup : Span
  source : Span
  collapsed : Bool
  deriving DecidableEq, Repr

/-- The lines of fragments whose images begin at an offset. -/
def linesFrom : Nat → List Fragment → List Line
  | _, [] => []
  | start, f :: fs =>
    ⟨⟨start, start + f.imageSize⟩, f.range, f.placeholder.isSome⟩ ::
      linesFrom (start + f.imageSize) fs

/-- The lines of a unit. -/
def lines (s : Scanned) : List Line := linesFrom 0 s.fragments

/-- The lines that begin at an offset or before. -/
def linesUpTo (table : List Line) (m : Nat) : List Line :=
  table.takeWhile fun line => decide (line.markup.start ≤ m)

/-- The offset that the last line up to `m` gives. Behind that line an offset is at the end, which
is the end of the source if no line follows. -/
def lookUp (total : Nat) (table : List Line) (m : Nat) : Nat :=
  match (linesUpTo table m).getLast? with
  | none => 0
  | some line =>
    if line.markup.stop ≤ m then
      if (linesUpTo table m).length = table.length then total else line.source.stop
    else if line.collapsed then line.source.start
    else line.source.start + (m - line.markup.start)

section

variable {total : Nat} {f : Fragment} {fs : List Fragment}

theorem linesFrom_ascending (start : Nat) (hsized : ∀ f ∈ fs, Sized f) :
    (linesFrom start fs).Pairwise (fun a b => a.markup.start < b.markup.start) ∧
      ∀ line ∈ linesFrom start fs, start ≤ line.markup.start := by
  induction fs generalizing start with
  | nil => simp [linesFrom]
  | cons f fs ih =>
    obtain ⟨hf, hfs⟩ := List.forall_mem_cons.mp hsized
    obtain ⟨hpairwise, hstart⟩ := ih (start + f.imageSize) hfs
    have hpos := hf.pos
    refine ⟨List.pairwise_cons.mpr ⟨fun line hline => ?_, hpairwise⟩, ?_⟩
    · exact Nat.lt_of_lt_of_le (Nat.lt_add_of_pos_right hpos) (hstart line hline)
    · refine List.forall_mem_cons.mpr ⟨Nat.le_refl _, fun line hline => ?_⟩
      exact Nat.le_trans (Nat.le_add_right _ _) (hstart line hline)

theorem linesUpTo_cons {line : Line} {table : List Line} {m : Nat} (h : line.markup.start ≤ m) :
    linesUpTo (line :: table) m = line :: linesUpTo table m :=
  List.takeWhile_cons_of_pos (by simpa using h)

theorem linesUpTo_linesFrom_of_lt {start m : Nat} (h : m < start) :
    linesUpTo (linesFrom start fs) m = [] := by
  cases fs with
  | nil => rfl
  | cons f fs => exact List.takeWhile_cons_of_neg (by simpa using h)

/-- A line decides nothing if a later one begins at the offset or before. -/
theorem lookUp_cons {line : Line} {table : List Line} {m : Nat} (h : line.markup.start ≤ m)
    (hlater : linesUpTo table m ≠ []) : lookUp total (line :: table) m = lookUp total table m := by
  have hlast : (line :: linesUpTo table m).getLast? = (linesUpTo table m).getLast? := by
    rw [List.getLast?_cons, List.getLast?_eq_some_getLast hlater]
    rfl
  simp only [lookUp, linesUpTo_cons h, hlast, List.length_cons, Nat.add_right_cancel_iff]

/-- The table leads where the walk over the fragments does. -/
theorem lookUp_linesFrom {start m : Nat} (hne : fs ≠ []) (hm : start ≤ m) :
    lookUp total (linesFrom start fs) m = sourceOffset total fs (m - start) := by
  induction fs generalizing start with
  | nil => exact absurd rfl hne
  | cons f fs ih =>
    rw [linesFrom, sourceOffset]
    by_cases hown : m < start + f.imageSize
    · have hupTo : linesUpTo (linesFrom (start + f.imageSize) fs) m = [] :=
        linesUpTo_linesFrom_of_lt hown
      rw [lookUp, linesUpTo_cons hm, hupTo, List.getLast?_singleton, if_pos (by omega)]
      cases f.placeholder <;> simp [hown]
    · rw [if_neg (by omega)]
      by_cases hlast : fs = []
      · subst hlast
        rw [lookUp, linesUpTo_cons hm, linesFrom, sourceOffset]
        simp [linesUpTo, Nat.not_lt.mp hown]
      · have hlater : linesUpTo (linesFrom (start + f.imageSize) fs) m ≠ [] := by
          obtain ⟨g, gs, rfl⟩ := List.exists_cons_of_ne_nil hlast
          rw [linesFrom, linesUpTo_cons (Nat.not_lt.mp hown)]
          exact List.cons_ne_nil _ _
        rw [lookUp_cons hm hlater, ih hlast (Nat.not_lt.mp hown), Nat.sub_sub]

end

/-! ## Walking over the fragments -/

section

variable {total start : Nat} {fs : List Fragment}

theorem le_sourceOffset (hc : Consecutive start total fs) (m : Nat) :
    start ≤ sourceOffset total fs m := by
  induction fs generalizing start m with
  | nil => exact Nat.le_of_eq hc
  | cons f fs ih =>
    obtain ⟨hstart, hlt, hrest⟩ := hc
    rw [sourceOffset]
    split_ifs
    · cases f.placeholder with
      | none => exact hstart ▸ Nat.le_add_right _ _
      | some p => exact hstart.ge
    · exact Nat.le_trans (Nat.le_of_lt hlt) (ih hrest _)

theorem sourceOffset_mono (hc : Consecutive start total fs) (hsized : ∀ f ∈ fs, Sized f) {m n : Nat}
    (h : m ≤ n) : sourceOffset total fs m ≤ sourceOffset total fs n := by
  induction fs generalizing start m n with
  | nil => exact Nat.le_refl _
  | cons f fs ih =>
    obtain ⟨hf, hfs⟩ := List.forall_mem_cons.mp hsized
    obtain ⟨hstart, hlt, hrest⟩ := hc
    rw [sourceOffset, sourceOffset]
    split_ifs with hm hn
    · cases f.placeholder with
      | none => exact Nat.add_le_add_left h _
      | some p => exact Nat.le_refl _
    · -- the first offset stays in the fragment, the second one leaves it
      have hbehind := le_sourceOffset hrest (n - f.imageSize)
      cases hp : f.placeholder with
      | none =>
        have htext := hf.text hp
        dsimp only
        omega
      | some p =>
        dsimp only
        omega
    · omega
    · exact ih hrest hfs (Nat.sub_le_sub_right h _)

end

/-! ## Laws -/

/-- The offset lies in what the fragment left in the markup. -/
def ImageAt (s : Scanned) (f : Fragment) (m : Nat) : Prop :=
  ∃ before after, s.fragments = before ++ f :: after ∧
    size (before.flatMap Fragment.image) ≤ m ∧
    m < size (before.flatMap Fragment.image) + f.imageSize

section

variable {source : List Char} {s : Scanned} {f : Fragment} {m : Nat}

theorem exists_imageAt (h : m < size s.markup) : ∃ f, s.ImageAt f m := by
  have hcover {fs : List Fragment} {m : Nat} (h : m < size (fs.flatMap Fragment.image)) :
      ∃ (before : List Fragment) (f : Fragment) (after : List Fragment),
        fs = before ++ f :: after ∧ size (before.flatMap Fragment.image) ≤ m ∧
        m < size (before.flatMap Fragment.image) + f.imageSize := by
    induction fs generalizing m with
    | nil => cases h
    | cons f fs ih =>
      rw [List.flatMap_cons, size_append, f.size_image] at h
      by_cases hown : m < f.imageSize
      · exact ⟨[], f, fs, rfl, Nat.zero_le _, by simpa using hown⟩
      · obtain ⟨before, g, after, rfl, hle, hlt⟩ := ih (m := m - f.imageSize) (by omega)
        refine ⟨f :: before, g, after, rfl, ?_, ?_⟩
        all_goals
          rw [List.flatMap_cons, size_append, f.size_image]
          omega
  obtain ⟨before, f, after, hs, hle, hlt⟩ := hcover h
  exact ⟨f, before, after, hs, hle, hlt⟩

/-- The offset at `n` in what a fragment left. -/
theorem toSource_image {before after : List Fragment} (hs : s.fragments = before ++ f :: after)
    {n : Nat} (hn : n < f.imageSize) :
    s.toSource (size (before.flatMap Fragment.image) + n) =
      if f.placeholder = none then f.range.start + n else f.range.start := by
  rw [toSource, hs, sourceOffset_append, sourceOffset, if_pos hn]
  cases f.placeholder <;> simp

theorem toSource_block (h : scan source = .ok s) (hm : s.ImageAt f m) (hf : f.kind ≠ .markup) :
    s.toSource m = f.range.start := by
  obtain ⟨before, after, hs, hle, hlt⟩ := hm
  obtain ⟨n, rfl⟩ := Nat.exists_eq_add_of_le hle
  have hmem : f ∈ s.fragments := by simp [hs]
  rw [toSource_image hs (by omega), if_neg fun hp => hf ((kind_eq_markup_iff h hmem).mpr hp)]

/-- The copy of a text holds the bytes of the source. -/
theorem toSource_text (h : scan source = .ok s) (hm : s.ImageAt f m) (hf : f.kind = .markup) :
    f.range.contains (s.toSource m) = true ∧
      ∃ b, (bytes s.markup)[m]? = some b ∧ (bytes source)[s.toSource m]? = some b := by
  obtain ⟨before, after, hs, hle, hlt⟩ := hm
  obtain ⟨n, rfl⟩ := Nat.exists_eq_add_of_le hle
  have hn : n < f.imageSize := by omega
  have hmem : f ∈ s.fragments := by simp [hs]
  have hp := (kind_eq_markup_iff h hmem).mp hf
  have hat := at_of_scan h hmem
  rw [if_pos hf] at hat
  obtain ⟨-, ⟨lead, rest, hsource, hstart, hstop⟩, -⟩ := hat
  have hsize : n < size f.text.toList := by
    rwa [← Fragment.image_of_none hp, f.size_image]
  have hmarkup : s.markup = before.flatMap Fragment.image ++
      (f.text.toList ++ after.flatMap Fragment.image) := by
    rw [markup, hs, List.flatMap_append, List.flatMap_cons, Fragment.image_of_none hp]
  obtain ⟨b, hb⟩ : ∃ b, (bytes f.text.toList)[n]? = some b :=
    ⟨_, List.getElem?_eq_getElem (by simpa using hsize)⟩
  rw [toSource_image hs hn, if_pos hp]
  refine ⟨?_, b, ?_, ?_⟩
  · simp only [Span.contains, Bool.and_eq_true, decide_eq_true_eq]
    omega
  · rw [hmarkup, getElem?_bytes_part _ _ _ hsize, hb]
  · rw [hsource, hstart, getElem?_bytes_part _ _ _ hsize, hb]

theorem toSource_behind (hm : size s.markup ≤ m) : s.toSource m = s.sourceSize := by
  obtain ⟨n, rfl⟩ := Nat.exists_eq_add_of_le hm
  have hend : sourceOffset s.sourceSize (s.fragments ++ []) _ = _ :=
    sourceOffset_append s.fragments [] n
  rwa [List.append_nil] at hend

theorem toSource_monotone (h : scan source = .ok s) : Monotone s.toSource := by
  intro m n hmn
  have hconsecutive := consecutive_of_scan h
  rw [← sourceSize_of_scan h] at hconsecutive
  exact sourceOffset_mono hconsecutive (fun f hf => sized_of_scan h hf) hmn

theorem spanToSource_of_le (h : scan source = .ok s) {span : Span}
    (hspan : span.start ≤ span.stop) :
    s.spanToSource span = ⟨s.toSource span.start, s.toSource span.stop⟩ := by
  rw [spanToSource, Nat.max_eq_left (toSource_monotone h hspan)]

theorem toSource_eq_lookUp (h : scan source = .ok s) (m : Nat) :
    s.toSource m = lookUp s.sourceSize s.lines m := by
  by_cases hne : s.fragments = []
  · have hconsecutive := consecutive_of_scan h
    rw [hne] at hconsecutive
    have hempty : 0 = size source := hconsecutive
    rw [toSource, lines, hne, sourceSize_of_scan h, ← hempty]
    rfl
  · rw [lines, lookUp_linesFrom hne (Nat.zero_le m), Nat.sub_zero, toSource]

/-- The fragment at an offset is the only one that holds it. -/
theorem fragmentAt?_of_lt (h : scan source = .ok s) {o : Nat} (ho : o < size source) :
    ∃ before f after, s.fragments = before ++ f :: after ∧ s.fragmentAt? o = some f ∧
      f.range.contains o = true ∧ ∀ g ∈ before ++ after, g.range.contains o = false := by
  have hconsecutive := consecutive_of_scan h
  have hne : s.fragments ≠ [] := by
    intro hnil
    rw [hnil] at hconsecutive
    have hempty : 0 = size source := hconsecutive
    omega
  obtain ⟨f, hf, hfind, hholds⟩ :=
    find?_reverse_of_consecutive hconsecutive hne (Nat.zero_le o) (Nat.le_of_lt ho)
  have hholds : f.range.contains o = true :=
    hholds.resolve_right fun hend => absurd hend.1 (Nat.ne_of_lt ho)
  obtain ⟨before, after, hs⟩ := List.append_of_mem hf
  rw [hs] at hconsecutive
  exact ⟨before, f, after, hs, hfind, hholds, fun g hg => hconsecutive.contains_unique hholds hg⟩

end

/-- How offsets lead from the markup of a unit into its source, and from there to fragments. -/
structure Mapped (source : List Char) (s : Scanned) : Prop where
  le : ∀ m, s.toSource m ≤ size source
  monotone : ∀ m n, m ≤ n → s.toSource m ≤ s.toSource n
  covered : ∀ m < size s.markup, ∃ f, s.ImageAt f m
  text : ∀ f m, s.ImageAt f m → f.kind = .markup →
    f.range.contains (s.toSource m) = true ∧
      ∃ b, (bytes s.markup)[m]? = some b ∧ (bytes source)[s.toSource m]? = some b
  block : ∀ f m, s.ImageAt f m → f.kind ≠ .markup → s.toSource m = f.range.start
  behind : ∀ m, size s.markup ≤ m → s.toSource m = size source
  span : ∀ span : Span, span.start ≤ span.stop →
    s.spanToSource span = ⟨s.toSource span.start, s.toSource span.stop⟩ ∧
      (s.spanToSource span).Within (size source)
  fragmentAt : ∀ o < size source, ∃ before f after,
    s.fragments = before ++ f :: after ∧ s.fragmentAt? o = some f ∧
      f.range.contains o = true ∧ ∀ g ∈ before ++ after, g.range.contains o = false
  ascending : s.lines.Pairwise fun a b => a.markup.start < b.markup.start
  table : ∀ m, s.toSource m = lookUp (size source) s.lines m

/-- Offsets of the markup lead back to where their bytes come from. -/
theorem scan_maps_markup {source : List Char} {s : Scanned} (h : scan source = .ok s) :
    Mapped source s := by
  have hsize := sourceSize_of_scan h
  constructor
  · exact toSource_le h
  · exact fun m n hmn => toSource_monotone h hmn
  · exact fun m hm => exists_imageAt hm
  · exact fun f m hm hf => toSource_text h hm hf
  · exact fun f m hm hf => toSource_block h hm hf
  · exact fun m hm => (toSource_behind hm).trans hsize
  · exact fun span hspan => ⟨spanToSource_of_le h hspan, spanToSource_within h span⟩
  · exact fun o ho => fragmentAt?_of_lt h ho
  · exact (linesFrom_ascending 0 fun f hf => sized_of_scan h hf).1
  · exact fun m => hsize ▸ toSource_eq_lookUp h m

/-- A placeholder that is longer than its block, between a character of two bytes and a name. -/
theorem scan_maps_markup_longer :
    ∃ source s, source = "é style{}b".toList ∧ scan source = .ok s ∧
      [1, 3, 27, 28, 29, 40].map s.toSource = [1, 3, 3, 10, 11, 11] ∧ Mapped source s := by
  obtain ⟨source, hsource⟩ : ∃ source, source = "é style{}b".toList := ⟨_, rfl⟩
  have hscan : ∃ s, scan source = .ok s ∧
      [1, 3, 27, 28, 29, 40].map s.toSource = [1, 3, 3, 10, 11, 11] := by
    rw [hsource, String.toList_ofList]
    decide +kernel
  obtain ⟨s, hs, hoffsets⟩ := hscan
  exact ⟨source, s, hsource, hs, hoffsets, scan_maps_markup hs⟩

end Scanned

end Chtl
