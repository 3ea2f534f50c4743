import Chtl.Markup.Parse
import Chtl.Proofs.Markup.Quotes

/-!
# Where comments end

A source is cut and markup is read with a rule each for the end of a comment. The rules agree about
line comments. They agree about a block comment unless it begins with `/*/`: there the reading lets
the star of the beginning be that of the end, and the cutting goes on to the next end.
-/

set_option autoImplicit false
set_option linter.all false

namespace Chtl

open Text

namespace Text

theorem lengthThrough_cons {c : Char} {needle cs : List Char} (h : ¬ needle <+: c :: cs) :
    lengthThrough needle (c :: cs) = 1 + lengthThrough needle cs := by
  have hlead : startsWith (c :: cs) needle = false := by
    rw [← Bool.not_eq_true, startsWith_iff]
    exact h
  rw [lengthThrough, find?, hlead]
  cases hfind : find? needle cs with
  | none => simp [lengthThrough, hfind, Nat.add_comm]
  | some n =>
    simp only [Bool.false_eq_true, if_false, lengthThrough, hfind, Option.map_some]
    omega

theorem lengthThrough_of_prefix {needle cs : List Char} (hne : needle ≠ []) (h : needle <+: cs) :
    lengthThrough needle cs = needle.length := by
  cases cs with
  | nil => exact absurd (List.prefix_nil.mp h) hne
  | cons c cs => simp [lengthThrough, find?, startsWith_iff.mpr h]

theorem lengthThrough_eq_zero {needle cs : List Char} (hne : needle ≠ []) :
    lengthThrough needle cs = 0 ↔ cs = [] := by
  have hpos := List.length_pos_of_ne_nil hne
  constructor
  · intro h
    unfold lengthThrough at h
    split at h
    · omega
    · exact List.length_eq_zero_iff.mp h
  · rintro rfl
    cases needle with
    | nil => exact absurd rfl hne
    | cons => rfl

end Text

namespace Markup

/-- What opens a comment both in cutting and in reading. -/
def OpensComment (cs : List Char) : Prop := ['/', '/'] <+: cs ∨ ['/', '*'] <+: cs

/-- A comment that is cut is longer than the one that is read by what stands behind a shared star, up
to the next end. -/
theorem comment_lengths {cs : List Char} (h : OpensComment cs) :
    ∃ cut read, Piece.commentLength? cs = some cut ∧ hiddenCommentLength? cs = some read ∧
      if ['/', '*', '/'] <+: cs then read = 3 ∧ cut = 3 + lengthThrough ['*', '/'] (cs.drop 3)
      else cut = read := by
  rcases h with ⟨rest, rfl⟩ | ⟨rest, rfl⟩
  · exact ⟨_, _, rfl, rfl, by rw [if_neg (by simp)]⟩
  · refine ⟨2 + lengthThrough ['*', '/'] rest, lengthThrough ['*', '/'] ('/' :: '*' :: rest), rfl,
      rfl, ?_⟩
    have hfront : lengthThrough ['*', '/'] ('/' :: '*' :: rest) =
        1 + lengthThrough ['*', '/'] ('*' :: rest) := lengthThrough_cons (by simp)
    rw [hfront]
    by_cases hshared : ['/', '*', '/'] <+: ['/', '*'] ++ rest
    · obtain ⟨more, rfl⟩ : ['/'] <+: rest := (List.prefix_append_right_inj ['/', '*']).mp hshared
      have hread : lengthThrough ['*', '/'] ('*' :: (['/'] ++ more)) = 2 :=
        lengthThrough_of_prefix (by simp) (List.prefix_append ['*', '/'] more)
      have hcut : lengthThrough ['*', '/'] (['/'] ++ more) = 1 + lengthThrough ['*', '/'] more :=
        lengthThrough_cons (by simp)
      rw [if_pos hshared, hread, hcut]
      refine ⟨rfl, ?_⟩
      simp only [List.cons_append, List.nil_append, List.drop_succ_cons, List.drop_zero]
      omega
    · have hapart : ¬ ['*', '/'] <+: '*' :: rest := fun hclose =>
        hshared ((List.prefix_append_right_inj ['/']).mpr hclose)
      rw [if_neg hshared, lengthThrough_cons hapart]
      omega

/-- Where blanks and comments are skipped, a comment is skipped first. -/
theorem triviaLength_comment {cs : List Char} {n : Nat} (h : hiddenCommentLength? cs = some n) :
    triviaLength cs = n + triviaLength (cs.drop n) := by
  have hpos := hiddenCommentLength?_pos h
  cases cs with
  | nil => cases h
  | cons c rest =>
    have hblank : isBlank c = false := by
      unfold hiddenCommentLength? at h
      split at h
      · rename_i heq
        cases heq
        rfl
      · rename_i heq
        cases heq
        rfl
      · cases h
    obtain ⟨n, rfl⟩ := Nat.exists_eq_succ_of_ne_zero hpos.ne'
    rw [triviaLength.eq_def]
    dsimp only
    rw [if_neg (by simp [hblank]), h]
    simp only [Nat.succ_eq_add_one, Nat.add_sub_cancel, List.drop_succ_cons, Nat.add_comm 1]

theorem Cursor.In.begins_iff {text lead : List Char} {c : Cursor} (hc : c.In text)
    (hascii : ∀ x ∈ lead, x.toNat < 128) : Begins lead text c.offset ↔ lead <+: c.rest := by
  obtain ⟨read, hsplit, hoffset, -⟩ := hc
  rw [hsplit, hoffset]
  exact Text.begins_iff hascii read c.rest

theorem Cursor.offset_advance_add (c : Cursor) (m n : Nat) :
    (c.advance (m + n)).offset = (c.advance m).offset + size ((c.rest.drop m).take n) := by
  rw [advance_add]
  rfl

/-- Where a comment opens there is one place to read from. What is cut as the comment goes at least
as far as what is skipped, and further exactly behind a shared star. -/
theorem comment_ends_alike_iff {text : List Char} {i : Nat}
    (h : Begins ['/', '/'] text i ∨ Begins ['/', '*'] text i) :
    ∃ c : Cursor, (∀ d : Cursor, d.In text ∧ d.offset = i ↔ d = c) ∧
      ∃ cut read, Piece.commentLength? c.rest = some cut ∧
        hiddenCommentLength? c.rest = some read ∧
        triviaLength c.rest = read + triviaLength (c.rest.drop read) ∧
        (c.advance read).offset ≤ (c.advance cut).offset ∧
        ((c.advance cut).offset = (c.advance read).offset ↔
          ¬ (Begins ['/', '*', '/'] text i ∧ i + 3 < size text)) := by
  have hslash : (bytes text)[i]? = some (UInt8.ofNat '/'.toNat) :=
    h.elim (Begins.getElem? (by decide)) (Begins.getElem? (by decide))
  obtain ⟨c, honly, -⟩ := exists_cursor_of_getElem?_bytes (by decide) hslash
  obtain ⟨hc, rfl⟩ := (honly c).mpr rfl
  rw [hc.begins_iff (by simp), hc.begins_iff (by simp)] at h
  rw [hc.begins_iff (by simp)]
  obtain ⟨cut, read, hcut, hread, hlengths⟩ := comment_lengths h
  refine ⟨c, honly, cut, read, hcut, hread, triviaLength_comment hread, ?_⟩
  split_ifs at hlengths with hshared
  · obtain ⟨rfl, rfl⟩ := hlengths
    obtain ⟨more, hmore⟩ := hshared
    have htotal := hc.offset_add
    rw [← hmore, size_append, show size ['/', '*', '/'] = 3 from rfl] at htotal
    rw [c.offset_advance_add, ← hmore, show (['/', '*', '/'] ++ more).drop 3 = more from rfl]
    refine ⟨Nat.le_add_right _ _, ?_⟩
    rw [Nat.add_eq_left, and_iff_right (List.prefix_append _ _)]
    have hmeasure : size (more.take (lengthThrough ['*', '/'] more)) = 0 ↔ more = [] := by
      constructor
      · intro hzero
        have htake : more.take (lengthThrough ['*', '/'] more) = [] := by
          by_contra hne
          exact (size_pos hne).ne' hzero
        rcases List.take_eq_nil_iff.mp htake with hnone | hnil
        · exact (lengthThrough_eq_zero (by simp)).mp hnone
        · exact hnil
      · rintro rfl
        rfl
    rw [hmeasure]
    constructor
    · rintro rfl
      simp at htotal
      omega
    · intro hend
      by_contra hne
      have := size_pos hne
      omega
  · subst hlengths
    exact ⟨Nat.le_refl _, iff_of_true rfl fun hnever => hshared hnever.1⟩

/-- A star that is shared by the beginning and the end, with nothing behind it. -/
theorem comment_ends_alike_iff_last :
    (Begins ['/', '/'] "p /*/".toList 2 ∨ Begins ['/', '*'] "p /*/".toList 2) ∧
      ∃ c : Cursor, (∀ d : Cursor, d.In "p /*/".toList ∧ d.offset = 2 ↔ d = c) ∧
        ∃ cut read, Piece.commentLength? c.rest = some cut ∧
          hiddenCommentLength? c.rest = some read ∧
          triviaLength c.rest = read + triviaLength (c.rest.drop read) ∧
          (c.advance read).offset ≤ (c.advance cut).offset ∧
          ((c.advance cut).offset = (c.advance read).offset ↔
            ¬ (Begins ['/', '*', '/'] "p /*/".toList 2 ∧ 2 + 3 < size "p /*/".toList)) := by
  have hopens : Begins ['/', '/'] "p /*/".toList 2 ∨ Begins ['/', '*'] "p /*/".toList 2 := by
    rw [String.toList_ofList]
    decide
  exact ⟨hopens, comment_ends_alike_iff hopens⟩

/-- A comment that is cut as a whole is read up to its shared star. The element in it is then read,
with a style block that was not cut out. -/
theorem comment_ends_behind_shared_star :
    ∃ text, text = "/*/ p \x7b style \x7b color: red; \x7d \x7d /* */".toList ∧
      Begins ['/', '*'] text 0 ∧
      (∃ c : Cursor, c.In text ∧ c.offset = 0 ∧
        (Piece.commentLength? c.rest).map (fun n => (c.advance n).offset) = some 37 ∧
        (hiddenCommentLength? c.rest).map (fun n => (c.advance n).offset) = some 3) ∧
      ∃ s, scan text = .ok s ∧ s.fragments.map (·.kind) = [.markup] ∧
        ∃ d, Document.ofScanned s = .ok d ∧ d.elements.map (·.tag) = ["p", "style"] := by
  refine ⟨_, rfl, ?_, ⟨_, Cursor.In.start _, rfl, ?_⟩, ?_⟩
  all_goals
    rw [String.toList_ofList]
    decide +kernel

end Markup

end Chtl
