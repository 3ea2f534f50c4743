import Chtl.Fragment.Piece
import Chtl.Proofs.Outcome
import Chtl.Proofs.Text.Basic

/-!
# Cutting loses nothing

The pieces of a source, joined again, are the source. Markup pieces are not empty and no two of them
are neighbours; a block opens with its keyword, blanks and a brace. What a look-ahead answers is all
that these laws use of it, so they hold whatever strings, comments and braces a block contains.
-/

set_option autoImplicit false
set_option linter.all false

namespace Chtl.Piece

open Text

/-- The word that opens a block of a kind. Markup is opened by none. -/
def keyword? : FragmentKind → Option (List Char)
  | .markup => none
  | .style => some "style".toList
  | .script => some "script".toList

/-- A keyword, blanks and the brace. -/
def Opens (kind : FragmentKind) (opening : List Char) : Prop :=
  ∃ word blanks, keyword? kind = some word ∧ (∀ c ∈ blanks, isAsciiBlank c = true) ∧
    opening = word ++ (blanks ++ ['{'])

def WellFormed : Piece → Prop
  | markup text => text ≠ []
  | block kind opening _ => Opens kind opening

def isMarkup : Piece → Bool
  | markup _ => true
  | block .. => false

/-- No two neighbours are markup. -/
def Alternate (pieces : List Piece) : Prop :=
  pieces.IsChain fun a b => ¬ (a.isMarkup = true ∧ b.isMarkup = true)

/-- What follows a keyword that stands alone: blanks and a brace, if a block opens here. -/
theorem opens_of_word {k kind : FragmentKind} {word rest cs : List Char} {m : Nat}
    (hk : keyword? k = some word) (hcs : cs = word ++ rest)
    (h : (if rest.head?.any touchesKeyword then none
      else if (rest.dropWhile isAsciiBlank).head? = some '{' then
        some (k, cs.length - (rest.dropWhile isAsciiBlank).length + 1)
      else none) = some (kind, m)) :
    Opens kind (cs.take m) ∧ 0 < m := by
  split_ifs at h with ht hb
  obtain ⟨rfl, rfl⟩ : k = kind ∧ _ = m := by simpa using h
  obtain ⟨inner, hi⟩ : ∃ inner, rest.dropWhile isAsciiBlank = '{' :: inner := by
    cases hd : rest.dropWhile isAsciiBlank with
    | nil => simp [hd] at hb
    | cons c inner => exact ⟨inner, by simpa [hd] using hb⟩
  have hr : rest = rest.takeWhile isAsciiBlank ++ '{' :: inner := by
    rw [← hi, List.takeWhile_append_dropWhile]
  have hs : cs = (word ++ (rest.takeWhile isAsciiBlank ++ ['{'])) ++ inner := by
    rw [hcs]
    conv_lhs => rw [hr]
    simp
  have hl := congrArg List.length hs
  simp only [List.length_append, List.length_singleton] at hl
  refine ⟨⟨word, rest.takeWhile isAsciiBlank, hk, ?_, ?_⟩, by omega⟩
  · exact List.all_eq_true.mp List.all_takeWhile
  · rw [hi, List.length_cons]
    conv_lhs => rw [hs]
    exact List.take_left' (by simp only [List.length_append, List.length_singleton]; omega)

theorem opens_of_opening? {previous : Option Char} {cs : List Char} {kind : FragmentKind} {m : Nat}
    (h : opening? previous cs = some (kind, m)) : Opens kind (cs.take m) ∧ 0 < m := by
  unfold opening? at h
  split_ifs at h
  cases hs : after? "style".toList cs with
  | some rest =>
    rw [hs] at h
    exact opens_of_word rfl (after?_eq_some_iff.mp hs) h
  | none =>
    rw [hs] at h
    cases hc : after? "script".toList cs with
    | some rest =>
      rw [hc] at h
      exact opens_of_word rfl (after?_eq_some_iff.mp hc) h
    | none =>
      rw [hc] at h
      cases h

theorem drop_later {c : Char} {rest : List Char} {found : Option Nat} {j k n : Nat} (hk : k = 1 + j)
    (h : found.map (· + k) = some n)
    (ih : ∀ m, found = some m → (rest.drop j).drop m = '}' :: (rest.drop j).drop (m + 1)) :
    (c :: rest).drop n = '}' :: (c :: rest).drop (n + 1) := by
  obtain ⟨m, hm, rfl⟩ := Option.map_eq_some_iff.mp h
  have hd := ih m hm
  rw [List.drop_drop, List.drop_drop] at hd
  rw [show m + k = (j + m) + 1 by omega, show j + m + 1 + 1 = (j + (m + 1)) + 1 by omega,
    List.drop_succ_cons, List.drop_succ_cons]
  exact hd

/-- Behind the body of a block stands the brace that closes it. -/
theorem drop_bodyLength? {kind : FragmentKind} {depth : Nat} {cs : List Char} {n : Nat}
    (h : bodyLength? kind depth cs = some n) : cs.drop n = '}' :: cs.drop (n + 1) := by
  fun_induction bodyLength? kind depth cs generalizing n with
  | case1 => cases h
  | case2 depth c rest _ k =>
    rename_i ih
    exact drop_later rfl h fun m hm => ih hm
  | case3 depth c rest _ _ k =>
    rename_i ih
    exact drop_later (show 2 + k = 1 + (1 + k) by omega) h fun m hm => ih hm
  | case4 depth c rest _ _ _ k =>
    rename_i ih
    exact drop_later rfl h fun m hm => ih hm
  | case5 depth rest _ _ _ ih => exact drop_later (j := 0) rfl h fun m hm => ih hm
  | case6 rest =>
    cases h
    rfl
  | case7 depth rest _ _ _ _ _ ih => exact drop_later (j := 0) rfl h fun m hm => ih hm
  | case8 depth c rest _ _ _ _ _ ih => exact drop_later (j := 0) rfl h fun m hm => ih hm

theorem flatMap_source_consMarkup (text : List Char) (pieces : List Piece) :
    (consMarkup text pieces).flatMap source = text ++ pieces.flatMap source := by
  cases pieces with
  | nil => cases text <;> simp [consMarkup, source]
  | cons p ps =>
    cases p with
    | markup more => simp [consMarkup, source]
    | block kind opening body => cases text <;> simp [consMarkup, source]

theorem wellFormed_consMarkup {text : List Char} {pieces : List Piece} (ht : text ≠ [])
    (h : ∀ p ∈ pieces, p.WellFormed) : ∀ p ∈ consMarkup text pieces, p.WellFormed := by
  intro p hp
  cases pieces with
  | nil =>
    obtain rfl : p = markup text := by simpa [consMarkup, ht] using hp
    exact ht
  | cons q qs =>
    cases q with
    | markup more =>
      rcases List.mem_cons.mp hp with rfl | hp
      · exact List.append_ne_nil_of_left_ne_nil ht more
      · exact h p (List.mem_cons_of_mem _ hp)
    | block kind opening body =>
      simp only [consMarkup, List.isEmpty_iff, ht, if_false] at hp
      rcases List.mem_cons.mp hp with rfl | hp
      · exact ht
      · exact h p hp

theorem alternate_consMarkup (text : List Char) {pieces : List Piece} (h : Alternate pieces) :
    Alternate (consMarkup text pieces) := by
  cases pieces with
  | nil => cases text <;> simp [consMarkup, Alternate]
  | cons q qs =>
    cases q with
    | markup more =>
      cases qs with
      | nil => simp [consMarkup, Alternate]
      | cons r rs => simpa [consMarkup, Alternate, isMarkup] using h
    | block kind opening body =>
      cases text with
      | nil => exact h
      | cons c cs => simpa [consMarkup, Alternate, isMarkup] using h

/-- What is known of a list of pieces cut from a text. -/
structure CutOf (cs : List Char) (pieces : List Piece) : Prop where
  source : pieces.flatMap source = cs
  wellFormed : ∀ p ∈ pieces, p.WellFormed
  alternate : Alternate pieces

theorem CutOf.consMarkup {text cs : List Char} {pieces : List Piece} (ht : text ≠ [])
    (h : CutOf cs pieces) : CutOf (text ++ cs) (consMarkup text pieces) where
  source := by rw [flatMap_source_consMarkup, h.source]
  wellFormed := wellFormed_consMarkup ht h.wellFormed
  alternate := alternate_consMarkup text h.alternate

theorem CutOf.consBlock {kind : FragmentKind} {opening body cs : List Char} {pieces : List Piece}
    (ho : Opens kind opening) (h : CutOf cs pieces) :
    CutOf (opening ++ (body ++ '}' :: cs)) (block kind opening body :: pieces) where
  source := by simp [Piece.source, h.source]
  wellFormed := List.forall_mem_cons.mpr ⟨ho, h.wellFormed⟩
  alternate := by
    cases pieces with
    | nil => simp [Alternate]
    | cons p ps => exact List.isChain_cons_cons.mpr ⟨by simp [isMarkup], h.alternate⟩

theorem cutOf_pass {c : Char} {rest : List Char} {n : Nat} {found : Except Unclosed (List Piece)}
    {pieces : List Piece} (h : found.map (consMarkup (c :: rest.take n)) = .ok pieces)
    (ih : ∀ more, found = .ok more → CutOf (rest.drop n) more) : CutOf (c :: rest) pieces := by
  obtain ⟨more, hm, rfl⟩ := map_eq_ok_iff.mp h
  have hc := (ih more hm).consMarkup (List.cons_ne_nil c (rest.take n))
  rwa [List.cons_append, List.take_append_drop] at hc

/-- Cutting from any place on gives pieces that make up the rest of the source. -/
theorem cutOf_of_cutFrom {previous : Option Char} {offset : Nat} {cs : List Char}
    {pieces : List Piece} (h : cutFrom previous offset cs = .ok pieces) : CutOf cs pieces := by
  fun_induction cutFrom previous offset cs generalizing pieces with
  | case1 =>
    cases h
    exact ⟨rfl, by simp, .nil⟩
  | case2 previous offset c rest pass =>
    rename_i _ ih
    exact cutOf_pass h fun more hm => ih _ hm
  | case3 previous offset c rest pass =>
    rename_i _ ih
    exact cutOf_pass h fun more hm => ih _ hm
  | case4 previous offset c rest pass =>
    rename_i _ ih
    exact cutOf_pass h fun more hm => ih _ hm
  | case5 => cases h
  | case6 previous offset c rest =>
    rename_i kind m ho opening inner n hb body _ ih
    obtain ⟨more, hm, rfl⟩ := map_eq_ok_iff.mp h
    obtain ⟨hopens, hpos⟩ := opens_of_opening? ho
    have htake : (c :: rest).take m = opening := by
      rw [show m = (m - 1) + 1 by omega, List.take_succ_cons]
    have hsplit : c :: rest = opening ++ (body ++ '}' :: inner.drop (n + 1)) := by
      rw [← drop_bodyLength? hb, List.take_append_drop]
      simp [opening, inner]
    rw [hsplit]
    exact (ih hm).consBlock (htake ▸ hopens)

theorem cutOf_of_cut {source : List Char} {pieces : List Piece} (h : cut source = .ok pieces) :
    CutOf source pieces :=
  cutOf_of_cutFrom h

end Chtl.Piece
