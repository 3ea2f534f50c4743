import Chtl.Proofs.Fragment.Token

/-!
# Offsets in the markup of a unit

An offset in the markup leads into the source. The ends of what a fragment leaves in the markup lead
to the ends of the fragment, and where a placeholder is read as a whole name it is what its own
fragment left.
-/

set_option autoImplicit false
set_option linter.all false

namespace Chtl

open Text

/-- The span lies in a source of a size. -/
def Span.Within (span : Span) (total : Nat) : Prop := span.start ≤ span.stop ∧ span.stop ≤ total

section

variable {start stop : Nat} {f : Fragment} {fs : List Fragment}

theorem Consecutive.le (h : Consecutive start stop fs) : start ≤ stop := by
  induction fs generalizing start with
  | nil => exact Nat.le_of_eq h
  | cons f fs ih =>
    obtain ⟨-, hlt, hrest⟩ := h
    exact Nat.le_trans (Nat.le_of_lt hlt) (ih hrest)

theorem Consecutive.of_append {before : List Fragment} (h : Consecutive start stop (before ++ fs)) :
    ∃ middle, Consecutive middle stop fs := by
  induction before generalizing start with
  | nil => exact ⟨start, h⟩
  | cons f before ih => exact ih h.2.2

theorem Consecutive.range_lt (h : Consecutive start stop fs) (hf : f ∈ fs) :
    f.range.start < f.range.stop := by
  induction fs generalizing start with
  | nil => cases hf
  | cons g gs ih =>
    obtain ⟨hstart, hlt, hrest⟩ := h
    rcases List.mem_cons.mp hf with rfl | hf
    · rwa [hstart]
    · exact ih hrest hf

theorem Consecutive.start_le (h : Consecutive start stop fs) (hf : f ∈ fs) :
    start ≤ f.range.start := by
  induction fs generalizing start with
  | nil => cases hf
  | cons g gs ih =>
    obtain ⟨hstart, hlt, hrest⟩ := h
    rcases List.mem_cons.mp hf with rfl | hf
    · exact hstart.ge
    · exact Nat.le_trans (Nat.le_of_lt hlt) (ih hrest hf)

theorem Consecutive.range_within (h : Consecutive start stop fs) (hf : f ∈ fs) :
    f.range.Within stop := by
  refine ⟨Nat.le_of_lt (h.range_lt hf), ?_⟩
  induction fs generalizing start with
  | nil => cases hf
  | cons g gs ih =>
    obtain ⟨-, -, hrest⟩ := h
    rcases List.mem_cons.mp hf with rfl | hf
    · exact hrest.le
    · exact ih hrest hf

/-- The last fragment that begins at an offset or before holds it, or the offset is the end. -/
theorem find?_reverse_of_consecutive {m : Nat}
    (h : Consecutive start stop fs) (hne : fs ≠ []) (hstart : start ≤ m) (hstop : m ≤ stop) :
    ∃ f ∈ fs, fs.reverse.find? (fun f => decide (f.range.start ≤ m)) = some f ∧
      (f.range.contains m = true ∨ m = stop ∧ fs.getLast? = some f) := by
  induction fs generalizing start with
  | nil => exact absurd rfl hne
  | cons f fs ih =>
    obtain ⟨hfirst, hlt, hrest⟩ := h
    rw [List.reverse_cons, List.find?_append]
    by_cases hm : f.range.stop ≤ m ∧ fs ≠ []
    · obtain ⟨g, hg, hfind, hbears⟩ := ih hrest hm.2 hm.1
      refine ⟨g, List.mem_cons_of_mem f hg, by rw [hfind]; rfl, hbears.imp_right ?_⟩
      rintro ⟨rfl, hlast⟩
      exact ⟨rfl, by rw [List.getLast?_cons, hlast]; rfl⟩
    · have hnone : fs.reverse.find? (fun f => decide (f.range.start ≤ m)) = none := by
        refine List.find?_eq_none.mpr fun g hg => ?_
        have hg := List.mem_reverse.mp hg
        have hne : fs ≠ [] := List.ne_nil_of_mem hg
        have hle := hrest.start_le hg
        simp only [hne, ne_eq, not_false_eq_true, and_true] at hm
        simp only [decide_eq_true_eq]
        omega
      refine ⟨f, List.mem_cons_self, ?_, ?_⟩
      · rw [hnone, Option.none_or, List.find?_singleton, if_pos (by simpa [hfirst] using hstart)]
      · by_cases hin : m < f.range.stop
        · left
          simp only [Span.contains, Bool.and_eq_true, decide_eq_true_eq]
          omega
        · obtain rfl : fs = [] := by
            by_contra hne
            exact hm ⟨by omega, hne⟩
          have hend : f.range.stop = stop := hrest
          exact .inr ⟨by omega, rfl⟩

end

namespace Scanned

/-- A fragment leaves something in the markup, and text leaves as much as it takes up. -/
structure Sized (f : Fragment) : Prop where
  pos : 0 < f.imageSize
  text : f.placeholder = none → f.range.start + f.imageSize = f.range.stop

theorem sized_of_scan {source : List Char} {s : Scanned} (h : scan source = .ok s) {f : Fragment}
    (hf : f ∈ s.fragments) : Sized f := by
  have hlt := (consecutive_of_scan h).range_lt hf
  cases hp : f.placeholder with
  | none =>
    have hat := at_of_scan h hf
    rw [if_pos ((kind_eq_markup_iff h hf).mpr hp)] at hat
    obtain ⟨-, ⟨before, after, -, hstart, hstop⟩, -⟩ := hat
    have himage : f.imageSize = size f.text.toList := by
      rw [size_toList, Fragment.imageSize, hp]
    exact ⟨by omega, fun _ => by omega⟩
  | some p =>
    have hword := (isWord_of_mem_placeholders h (List.mem_filterMap.mpr ⟨f, hf, hp⟩)).1
    refine ⟨?_, fun hnone => by rw [hp] at hnone; cases hnone⟩
    rw [← f.size_image, Fragment.image, hp]
    exact size_pos (List.ne_nil_of_mem hword.holds)

section

variable {total : Nat} {fs : List Fragment}

/-- What came before does not matter for what is behind it. -/
theorem sourceOffset_append (before rest : List Fragment) (m : Nat) :
    sourceOffset total (before ++ rest) (size (before.flatMap Fragment.image) + m) =
      sourceOffset total rest m := by
  induction before with
  | nil => simp
  | cons f fs ih =>
    rw [List.flatMap_cons, size_append, f.size_image, List.cons_append, sourceOffset,
      if_neg (by omega), ← ih]
    congr 1
    omega

/-- The beginning of what fragments leave leads to where they begin. -/
theorem sourceOffset_zero {start : Nat} (hc : Consecutive start total fs)
    (hsized : ∀ f ∈ fs, Sized f) : sourceOffset total fs 0 = start := by
  cases fs with
  | nil => exact hc.symm
  | cons f fs =>
    rw [sourceOffset, if_pos (hsized f List.mem_cons_self).pos]
    cases f.placeholder <;> exact hc.1

theorem sourceOffset_le {start : Nat} (hc : Consecutive start total fs)
    (hsized : ∀ f ∈ fs, Sized f) (m : Nat) : sourceOffset total fs m ≤ total := by
  induction fs generalizing start m with
  | nil => exact Nat.le_refl _
  | cons f fs ih =>
    have hwithin := hc.range_within List.mem_cons_self
    have htext := (hsized f List.mem_cons_self).text
    rw [sourceOffset]
    split_ifs with hm
    · cases hp : f.placeholder with
      | none =>
        have := htext hp
        have := hwithin.2
        dsimp only
        omega
      | some p => exact Nat.le_trans hwithin.1 hwithin.2
    · exact ih hc.2.2 (fun g hg => hsized g (List.mem_cons_of_mem f hg)) _

end

section

variable {source : List Char} {s : Scanned}

theorem toSource_le (h : scan source = .ok s) (m : Nat) : s.toSource m ≤ size source := by
  rw [toSource, sourceSize_of_scan h]
  exact sourceOffset_le (consecutive_of_scan h) (fun f hf => sized_of_scan h hf) m

theorem spanToSource_within (h : scan source = .ok s) (span : Span) :
    (s.spanToSource span).Within (size source) :=
  ⟨Nat.le_max_right _ _, Nat.max_le.mpr ⟨toSource_le h _, toSource_le h _⟩⟩

/-- The ends of what a fragment leaves lead to the ends of the fragment. -/
theorem spanToSource_image (h : scan source = .ok s) {before after : List Fragment} {f : Fragment}
    (hs : s.fragments = before ++ f :: after) {m : Nat}
    (hm : m = size (before.flatMap Fragment.image)) :
    s.spanToSource ⟨m, m + f.imageSize⟩ = f.range := by
  have hconsecutive := consecutive_of_scan h
  rw [hs] at hconsecutive
  obtain ⟨middle, hown⟩ := hconsecutive.of_append
  have hsized : ∀ g ∈ f :: after, Sized g :=
    fun g hg => sized_of_scan h (hs ▸ List.mem_append_right before hg)
  have hstart : s.toSource m = f.range.start := by
    have hzero : sourceOffset (size source) (before ++ f :: after) _ = _ :=
      sourceOffset_append before (f :: after) 0
    rw [Nat.add_zero, sourceOffset_zero hown hsized] at hzero
    rw [toSource, hs, hm, sourceSize_of_scan h, hzero, hown.1]
  have hstop : s.toSource (m + f.imageSize) = f.range.stop := by
    rw [toSource, hs, hm, sourceSize_of_scan h, sourceOffset_append, sourceOffset,
      if_neg (Nat.lt_irrefl _), Nat.sub_self]
    exact sourceOffset_zero hown.2.2 fun g hg => hsized g (List.mem_cons_of_mem f hg)
  have hle := Nat.le_of_lt (hown.range_lt List.mem_cons_self)
  simp only [spanToSource, hstart, hstop, Nat.max_eq_left hle]

theorem Marked.of_append {nonce : String} {before fs : List Fragment}
    (h : Marked nonce (before ++ fs)) : Marked nonce fs := by
  induction before with
  | nil => exact h
  | cons f before ih => exact ih h.tail

/-- What is read ends before a placeholder, in a text or at the end, unless it ends in a name. -/
theorem Marked.split {nonce : String} {fs : List Fragment} (h : Marked nonce fs)
    {read rest : List Char} (hsplit : fs.flatMap Fragment.image = read ++ rest)
    (hread : read.getLast?.any isNameChar = false) :
    rest = [] ∨ ∃ (before : List Fragment) (f : Fragment) (after : List Fragment),
      fs = before ++ f :: after ∧
      ((∃ p, f.placeholder = some p ∧ read = before.flatMap Fragment.image) ∨
        (f.placeholder = none ∧ ∃ own, own ≠ [] ∧ own <:+ f.text.toList ∧
          rest = own ++ after.flatMap Fragment.image)) := by
  induction fs generalizing read with
  | nil => exact .inl (List.append_eq_nil_iff.mp hsplit.symm).2
  | cons f fs ih =>
    rw [List.flatMap_cons] at hsplit
    have hbehind {more : List Char} (hmore : fs.flatMap Fragment.image = more ++ rest)
        (hlast : more.getLast?.any isNameChar = false) (himage : f.image ++ more = read) :
        rest = [] ∨ ∃ (before : List Fragment) (g : Fragment) (after : List Fragment),
          f :: fs = before ++ g :: after ∧
          ((∃ p, g.placeholder = some p ∧ read = before.flatMap Fragment.image) ∨
            (g.placeholder = none ∧ ∃ own, own ≠ [] ∧ own <:+ g.text.toList ∧
              rest = own ++ after.flatMap Fragment.image)) := by
      rcases ih h.tail hmore hlast with hnil | ⟨before, g, after, rfl, ⟨p, hp, rfl⟩ | htext⟩
      · exact .inl hnil
      · exact .inr ⟨f :: before, g, after, rfl, .inl ⟨p, hp, himage.symm⟩⟩
      · exact .inr ⟨f :: before, g, after, rfl, .inr htext⟩
    rcases List.append_eq_append_iff.mp hsplit with ⟨more, rfl, hmore⟩ | ⟨own, himage, rfl⟩
    · refine hbehind hmore ?_ rfl
      rw [List.getLast?_append] at hread
      cases hlast : more.getLast? with
      | none => rfl
      | some c => rwa [hlast] at hread
    by_cases hown : own = []
    · subst hown
      exact @hbehind [] rfl rfl (by simpa using himage)
    -- what is left begins in what `f` left
    refine .inr ⟨[], f, fs, rfl, ?_⟩
    cases hf : f.placeholder with
    | none =>
      refine .inr ⟨rfl, own, hown, ⟨read, ?_⟩, rfl⟩
      rw [← himage, Fragment.image_of_none hf]
    | some p =>
      have hnames := (h.token p (by simp [placeholders, hf])).1
      rw [← Fragment.image_of_some hf, himage] at hnames
      have hempty : read = [] := by
        by_contra hne
        have hlast := hnames _ (List.mem_append_left own (List.getLast_mem hne))
        rw [List.getLast?_eq_some_getLast hne, Option.any_some, hlast] at hread
        cases hread
      exact .inl ⟨p, rfl, hempty⟩

/-- A placeholder that is read as a whole name is what its fragment left. -/
theorem Marked.split_of_run {nonce : String} {fs : List Fragment} (h : Marked nonce fs)
    {kind : FragmentKind} (hkind : kind ≠ .markup) (ordinal : Nat) {read rest : List Char}
    (hsplit : fs.flatMap Fragment.image = read ++ rest)
    (hread : read.getLast?.any isNameChar = false)
    (hrun : rest.takeWhile isNameChar = (Placeholder.ofBlock kind nonce ordinal).token.toList) :
    ∃ (before : List Fragment) (f : Fragment) (after : List Fragment), fs = before ++ f :: after ∧
      f.placeholder = some (.ofBlock kind nonce ordinal) ∧
      read = before.flatMap Fragment.image := by
  obtain ⟨mine, hmine⟩ := Placeholder.begins_ofBlock hkind nonce ordinal
  rcases h.split hsplit hread with rfl | ⟨before, f, after, rfl, ⟨q, hq, rfl⟩ | htext⟩
  · rw [hmine] at hrun
    simp at hrun
  · obtain ⟨hnames, k, m, hk, rfl⟩ := h.token q (by simp [placeholders, hq])
    have hrest : rest = f.image ++ after.flatMap Fragment.image := by
      rw [List.flatMap_append] at hsplit
      exact (List.append_cancel_left hsplit).symm
    rw [hrest, Fragment.image_of_some hq, List.takeWhile_append_of_pos hnames] at hrun
    have heq := Placeholder.ofBlock_eq_of_prefix hk hkind ⟨_, hrun⟩
    exact ⟨before, f, after, rfl, by rw [hq, heq], rfl⟩
  · obtain ⟨hf, own, hown, hsuffix, rfl⟩ := htext
    rw [hmine] at hrun
    exact absurd hrun (h.of_append.run_in_text_ne hf hown hsuffix)

/-- The name of a block is read where its fragment begins, if the source holds no mark. -/
theorem spanToSource_name (hmark : ¬ Placeholder.mark <:+: source) (h : scan source = .ok s)
    {read rest : List Char} (hsplit : s.markup = read ++ rest)
    (hread : read.getLast?.any isNameChar = false) {f : Fragment} {p : Placeholder}
    (hf : f ∈ s.fragments) (hp : f.placeholder = some p)
    (hname : rest.takeWhile isNameChar = p.token.toList) :
    s.spanToSource ⟨size read, size read + size p.token.toList⟩ = f.range := by
  have hmarked := marked_of_scan hmark h
  obtain ⟨-, kind, ordinal, hkind, rfl⟩ := hmarked.token p (List.mem_filterMap.mpr ⟨f, hf, hp⟩)
  obtain ⟨before, g, after, hfragments, hg, hbefore⟩ :=
    hmarked.split_of_run hkind ordinal hsplit hread hname
  have hgmem : g ∈ s.fragments := by simp [hfragments]
  obtain rfl : g = f := eq_of_placeholder (nodup_placeholders h) hgmem hf hg hp
  rw [← Fragment.image_of_some hg, g.size_image]
  exact spanToSource_image h hfragments (congrArg size hbefore)

end

/-! ## Units without blocks -/

/-- The unit is all markup. -/
def Plain (s : Scanned) : Prop := ∀ f ∈ s.fragments, f.kind = .markup

section

variable {source : List Char} {s : Scanned}

theorem sourceOffset_of_plain {start total : Nat} {fs : List Fragment}
    (hc : Consecutive start total fs) (hsized : ∀ f ∈ fs, Sized f)
    (hplain : ∀ f ∈ fs, f.placeholder = none) {m : Nat} (hm : start + m ≤ total) :
    sourceOffset total fs m = start + m := by
  induction fs generalizing start m with
  | nil =>
    have hstart : start = total := hc
    rw [sourceOffset]
    omega
  | cons f fs ih =>
    obtain ⟨hstart, -, hrest⟩ := hc
    have hnone := hplain f List.mem_cons_self
    have htext := (hsized f List.mem_cons_self).text hnone
    rw [sourceOffset, hnone]
    split_ifs
    · rw [hstart]
    · have hlater := ih hrest (fun g hg => hsized g (List.mem_cons_of_mem f hg))
        (fun g hg => hplain g (List.mem_cons_of_mem f hg)) (m := m - f.imageSize) (by omega)
      omega

/-- In a unit without blocks every offset of the markup is one of the source. -/
theorem toSource_of_plain (h : scan source = .ok s) (hplain : s.Plain) {m : Nat}
    (hm : m ≤ size source) : s.toSource m = m := by
  have hoffset := sourceOffset_of_plain (consecutive_of_scan h) (fun f hf => sized_of_scan h hf)
    (fun f hf => (kind_eq_markup_iff h hf).mp (hplain f hf)) (by simpa using hm)
  rw [toSource, sourceSize_of_scan h, hoffset, Nat.zero_add]

theorem flatMap_image_assemble (nonce : String) (ordinal offset : Nat) {pieces : List Piece}
    (h : ∀ p ∈ pieces, p.WellFormed)
    (hplain : ∀ f ∈ assemble nonce ordinal offset pieces, f.kind = .markup) :
    (assemble nonce ordinal offset pieces).flatMap Fragment.image = pieces.flatMap Piece.source := by
  induction pieces generalizing ordinal offset with
  | nil => rfl
  | cons piece pieces ih =>
    obtain ⟨hpiece, hrest⟩ := List.forall_mem_cons.mp h
    cases piece with
    | markup text =>
      rw [assemble] at hplain ⊢
      rw [List.flatMap_cons, List.flatMap_cons,
        ih _ _ hrest (List.forall_mem_cons.mp hplain).2]
      simp [Fragment.image, Piece.source]
    | block kind opening body =>
      exact absurd (hplain _ List.mem_cons_self) (kind_ne_markup hpiece)

/-- A unit without blocks is its own markup. -/
theorem markup_of_plain (h : scan source = .ok s) (hplain : s.Plain) : s.markup = source := by
  obtain ⟨pieces, hcut, rfl⟩ := exists_pieces_of_scan h
  rw [markup, flatMap_image_assemble _ _ _ hcut.wellFormed hplain, hcut.source]

end

end Scanned

end Chtl
