import Chtl.Proofs.Fragment.Offset
import Mathlib.Data.List.TakeWhile

/-!
# Where placeholders touch their neighbours

A block opens only where its keyword stands alone, so no name goes on from a text into the
placeholder behind it. Nothing keeps the brace that closes a block apart from what follows: there a
placeholder may be read on into a longer name.
-/

set_option autoImplicit false
set_option linter.all false

namespace Chtl

open Text

namespace Piece

/-- Behind a character stand pieces, and no block behind a character that may not touch its
keyword. -/
def Parted : (previous : Option Char) → List Piece → Prop
  | _, [] => True
  | previous, markup text :: rest => Parted (text.getLast?.or previous) rest
  | previous, block _ _ _ :: rest => previous.any touchesKeyword = false ∧ Parted (some '}') rest

theorem Parted.consMarkup {previous : Option Char} {text : List Char} {pieces : List Piece}
    (h : Parted (text.getLast?.or previous) pieces) : Parted previous (consMarkup text pieces) := by
  rcases pieces with _ | ⟨_ | ⟨kind, opening, body⟩, pieces⟩
  · cases text <;> trivial
  · rw [Parted] at h
    rwa [Piece.consMarkup, Parted, List.getLast?_append, Option.or_assoc]
  · cases text with
    | nil => exact h
    | cons c text => exact h

theorem parted_pass {previous : Option Char} {c : Char} {rest : List Char} {n : Nat}
    {found : Except Unclosed (List Piece)} {pieces : List Piece}
    (h : found.map (Piece.consMarkup (c :: rest.take n)) = .ok pieces)
    (ih : ∀ more, found = .ok more → Parted (c :: rest.take n).getLast? more) :
    Parted previous pieces := by
  obtain ⟨more, hm, rfl⟩ := map_eq_ok_iff.mp h
  refine Parted.consMarkup ?_
  rw [List.getLast?_eq_some_getLast (List.cons_ne_nil c _), Option.some_or,
    ← List.getLast?_eq_some_getLast]
  exact ih more hm

theorem not_touchesKeyword_of_opening? {previous : Option Char} {cs : List Char}
    {found : FragmentKind × Nat} (h : opening? previous cs = some found) :
    previous.any touchesKeyword = false := by
  unfold opening? at h
  split_ifs at h with htouches
  simpa using htouches

theorem parted_of_cutFrom {previous : Option Char} {offset : Nat} {cs : List Char}
    {pieces : List Piece} (h : cutFrom previous offset cs = .ok pieces) :
    Parted previous pieces := by
  fun_induction cutFrom previous offset cs generalizing pieces with
  | case1 =>
    cases h
    trivial
  | case2 previous offset c rest pass =>
    rename_i _ ih
    exact parted_pass h fun more hm => ih _ hm
  | case3 previous offset c rest pass =>
    rename_i _ ih
    exact parted_pass h fun more hm => ih _ hm
  | case4 previous offset c rest pass =>
    rename_i _ ih
    exact parted_pass h fun more hm => ih _ hm
  | case5 => cases h
  | case6 previous offset c rest =>
    rename_i kind m hopening opening inner n hbody body _ ih
    obtain ⟨more, hm, rfl⟩ := map_eq_ok_iff.mp h
    exact ⟨not_touchesKeyword_of_opening? hopening, ih hm⟩

theorem not_isNameChar_of_not_touchesKeyword {c : Char} (h : touchesKeyword c = false) :
    isNameChar c = false := by
  simp only [touchesKeyword, Bool.or_eq_false_iff] at h
  simp only [isNameChar, h, Bool.or_self]

end Piece

namespace Scanned

/-- No name goes on from a text into the placeholder behind it. -/
def Parted (fragments : List Fragment) : Prop :=
  fragments.IsChain fun f g => f.kind = .markup → g.kind ≠ .markup →
    f.text.toList.getLast?.any isNameChar = false

theorem parted_assemble (nonce : String) (ordinal offset : Nat) {previous : Option Char}
    {pieces : List Piece} (hw : ∀ p ∈ pieces, p.WellFormed)
    (h : Piece.Parted previous pieces) : Parted (assemble nonce ordinal offset pieces) := by
  induction pieces generalizing ordinal offset previous with
  | nil => exact .nil
  | cons p ps ih =>
    obtain ⟨hp, hps⟩ := List.forall_mem_cons.mp hw
    cases p with
    | block kind opening body =>
      have hrest := ih (ordinal + 1) (offset + size opening + size body + 1) hps h.2
      have hkind := kind_ne_markup hp
      cases ps with
      | nil => exact .singleton _
      | cons q qs =>
        cases q <;> exact List.isChain_cons_cons.mpr ⟨fun hmarkup => absurd hmarkup hkind, hrest⟩
    | markup text =>
      have hrest := ih ordinal (offset + size text) hps h
      cases ps with
      | nil => exact .singleton _
      | cons q qs =>
        cases q with
        | markup more => exact List.isChain_cons_cons.mpr ⟨fun _ hnot => absurd rfl hnot, hrest⟩
        | block kind opening body =>
          refine List.isChain_cons_cons.mpr ⟨fun _ _ => ?_, hrest⟩
          have htouches := h.1
          rw [List.getLast?_eq_some_getLast hp, Option.some_or, Option.any_some] at htouches
          rw [String.toList_ofList, List.getLast?_eq_some_getLast hp, Option.any_some]
          exact Piece.not_isNameChar_of_not_touchesKeyword htouches

theorem parted_of_scan {source : List Char} {s : Scanned} (h : scan source = .ok s) :
    Parted s.fragments := by
  unfold scan at h
  split at h
  · rename_i pieces hcut
    cases h
    exact parted_assemble _ _ _ (Piece.cutOf_of_cut hcut).wellFormed (Piece.parted_of_cutFrom hcut)
  · cases h

theorem Parted.of_append {before fs : List Fragment} (h : Parted (before ++ fs)) : Parted fs :=
  List.IsChain.right_of_append h

/-- A run of names that holds a mark begins with a placeholder. -/
theorem Marked.split_of_mark {nonce : String} {fs : List Fragment} (h : Marked nonce fs)
    (hparted : Parted fs) {read rest : List Char}
    (hsplit : fs.flatMap Fragment.image = read ++ rest)
    (hread : read.getLast?.any isNameChar = false)
    (hmark : Placeholder.mark <:+: rest.takeWhile isNameChar) :
    ∃ (before : List Fragment) (f : Fragment) (after : List Fragment) (p : Placeholder),
      fs = before ++ f :: after ∧ f.placeholder = some p ∧
      rest = p.token.toList ++ after.flatMap Fragment.image := by
  rcases h.split hsplit hread with rfl | ⟨before, f, after, rfl, ⟨p, hp, rfl⟩ | htext⟩
  · exact absurd hmark (by decide)
  · rw [List.flatMap_append] at hsplit
    have hrest := List.append_cancel_left hsplit
    rw [List.flatMap_cons, Fragment.image_of_some hp] at hrest
    exact ⟨before, f, after, p, rfl, hp, hrest.symm⟩
  · obtain ⟨hf, own, hown, hsuffix, rfl⟩ := htext
    have hplain : ¬ Placeholder.mark <:+: own := fun hpart =>
      h.text f (by simp) (hpart.trans hsuffix.isInfix)
    have hmarkup : f.kind = .markup := (h.kind f (by simp)).mpr hf
    rw [List.takeWhile_append] at hmark
    split_ifs at hmark with hall
    · -- a text of names before a block is what the keyword of the block rules out
      cases after with
      | nil => exact absurd (by simpa using hmark) hplain
      | cons g gs =>
        have hapart := (List.isChain_cons_cons.mp h.of_append.apart).1
        have hstop := (List.isChain_cons_cons.mp hparted.of_append).1 hmarkup fun hg =>
          hapart ⟨hmarkup, hg⟩
        obtain ⟨lead, hlead⟩ := hsuffix
        have hnames : ∀ c ∈ own, isNameChar c = true :=
          List.takeWhile_eq_self_iff.mp ((List.takeWhile_prefix _).eq_of_length hall)
        have hlast := hnames _ (List.getLast_mem hown)
        rw [← hlead, List.getLast?_append, List.getLast?_eq_some_getLast hown, Option.some_or,
          Option.any_some, hlast] at hstop
        cases hstop
    · exact absurd (hmark.trans (List.takeWhile_prefix _).isInfix) hplain

end Scanned

end Chtl
