import Chtl.Proofs.Fragment.Cut
import Mathlib.Tactic.Common

/-!
# Texts that pass as markup

A text passes between two characters if cutting goes over it as markup whatever follows. Texts that
pass can be put together, so a source passes if its words do.
-/

set_option autoImplicit false
set_option linter.all false

namespace Chtl.Piece

open Text

/-- Cutting goes over the text after the character `previous` and then stands after `last`. -/
def Passes (previous : Option Char) (text : List Char) (last : Option Char) : Prop :=
  ∀ offset rest, cutFrom previous offset (text ++ rest) =
    (cutFrom last (offset + size text) rest).map (consMarkup text)

theorem consMarkup_consMarkup (a b : List Char) (pieces : List Piece) :
    consMarkup a (consMarkup b pieces) = consMarkup (a ++ b) pieces := by
  rcases pieces with _ | ⟨_ | ⟨kind, opening, body⟩, pieces⟩
  · cases b <;> simp [consMarkup]
  · simp [consMarkup]
  · cases b <;> simp [consMarkup]

theorem consMarkup_nil (pieces : List Piece) : consMarkup [] pieces = pieces := by
  rcases pieces with _ | ⟨_ | ⟨kind, opening, body⟩, pieces⟩ <;> rfl

theorem Passes.nil (previous : Option Char) : Passes previous [] previous := by
  intro offset rest
  rw [List.nil_append, size_nil, Nat.add_zero]
  cases cutFrom previous offset rest with
  | error e => rfl
  | ok pieces => rw [Except.map, consMarkup_nil]

theorem map_consMarkup_map (a b : List Char) (cut : Except Unclosed (List Piece)) :
    (cut.map (consMarkup b)).map (consMarkup a) = cut.map (consMarkup (a ++ b)) := by
  cases cut with
  | error e => rfl
  | ok pieces => simp [Except.map, consMarkup_consMarkup]

theorem Passes.append {a b c : Option Char} {s t : List Char} (hs : Passes a s b)
    (ht : Passes b t c) : Passes a (s ++ t) c := by
  intro offset rest
  rw [List.append_assoc, hs, ht, size_append, Nat.add_assoc, map_consMarkup_map]

theorem cutFrom_single {previous : Option Char} {c : Char} {rest : List Char} (offset : Nat)
    (hquote : ¬ ((c = '"' ∨ c = '\x27') ∧ opensString previous = true))
    (hcomment : opensComment previous = true → commentLength? (c :: rest) = none)
    (hopening : opening? previous (c :: rest) = none) :
    cutFrom previous offset (c :: rest) =
      (cutFrom (some c) (offset + size [c]) rest).map (consMarkup [c]) := by
  have hnone :
      (if opensComment previous = true then commentLength? (c :: rest) else none) = none := by
    split_ifs with h
    · exact hcomment h
    · rfl
  rw [cutFrom, if_neg hquote, hnone]
  dsimp only
  rw [hopening]
  simp

theorem commentLength?_eq_none {c : Char} {rest : List Char} (hs : c ≠ '/') (hh : c ≠ '-') :
    commentLength? (c :: rest) = none := by
  unfold commentLength?
  split <;> simp_all

theorem opening?_eq_none_of_ne {previous : Option Char} {c : Char} {rest : List Char}
    (h : c ≠ 's') :
    opening? previous (c :: rest) = none := by
  have hstyle : after? "style".toList (c :: rest) = none := after?_cons_of_ne (Ne.symm h) _ rest
  have hscript : after? "script".toList (c :: rest) = none := after?_cons_of_ne (Ne.symm h) _ rest
  simp only [opening?, hstyle, hscript, Option.map_none, ite_self]

theorem Passes.punctuation (previous : Option Char) {c : Char}
    (h : c ∉ ['"', '\x27', '/', '-', 's']) : Passes previous [c] (some c) := by
  simp only [List.mem_cons, List.not_mem_nil, or_false, not_or] at h
  obtain ⟨hd, hq, hs, hh, hl⟩ := h
  intro offset rest
  exact cutFrom_single offset (fun hc => hc.1.elim hd hq) (fun _ => commentLength?_eq_none hs hh)
    (opening?_eq_none_of_ne hl)

theorem touchesKeyword_of_isNameChar {c : Char} (h : isNameChar c = true) :
    touchesKeyword c = true := by
  unfold isNameChar at h
  unfold touchesKeyword
  simp only [h, Bool.true_or]

theorem closed_of_isNameChar {c : Char} (h : isNameChar c = true) :
    c ≠ '"' ∧ c ≠ '\x27' ∧ c ≠ '/' ∧ opensComment (some c) = false := by
  refine ⟨?_, ?_, ?_, ?_⟩
  · rintro rfl
    exact absurd h (by decide)
  · rintro rfl
    exact absurd h (by decide)
  · rintro rfl
    exact absurd h (by decide)
  · rw [Bool.eq_false_iff]
    intro ho
    simp only [opensComment, isAsciiBlank, Bool.or_eq_true, beq_iff_eq] at ho
    rcases ho with (((((((rfl | rfl) | rfl) | rfl) | rfl) | rfl) | rfl) | rfl)
    all_goals exact absurd h (by decide)

/-- Inside a name nothing begins, so the rest of the name passes. -/
theorem Passes.nameTail {previous : Char} (hp : isNameChar previous = true) {cs : List Char}
    (hcs : ∀ c ∈ cs, isNameChar c = true) :
    ∃ last, isNameChar last = true ∧ Passes (some previous) cs (some last) := by
  induction cs generalizing previous with
  | nil => exact ⟨previous, hp, .nil _⟩
  | cons c cs ih =>
    have hc : isNameChar c = true := hcs c List.mem_cons_self
    obtain ⟨hd, hq, -, -⟩ := closed_of_isNameChar hc
    have hfirst : Passes (some previous) [c] (some c) := by
      intro offset rest
      refine cutFrom_single offset (fun h => h.1.elim hd hq) ?_ ?_
      · intro ho
        rw [(closed_of_isNameChar hp).2.2.2] at ho
        cases ho
      · simp [opening?, touchesKeyword_of_isNameChar hp]
    obtain ⟨last, hlast, hrest⟩ := ih hc fun d hd => hcs d (List.mem_cons_of_mem c hd)
    exact ⟨last, hlast, hfirst.append hrest⟩

/-- A keyword in front of a name is the whole name, or the name goes on behind it. -/
theorem after?_name {word name rest more : List Char} {sep : Char}
    (hn : ∀ c ∈ name, isNameChar c = true) (hsep : sep ∉ word)
    (h : after? word (name ++ sep :: rest) = some more) :
    name = word ∧ more = sep :: rest ∨ more.head?.any touchesKeyword = true := by
  rcases List.append_eq_append_iff.mp (after?_eq_some_iff.mp h) with
    ⟨tail, hword, hmore⟩ | ⟨tail, hname, hmore⟩
  · cases tail with
    | nil => exact .inl ⟨by simpa using hword.symm, by simpa using hmore.symm⟩
    | cons d tail =>
      obtain ⟨rfl, -⟩ := List.cons.inj hmore
      exact absurd (hword ▸ by simp) hsep
  · cases tail with
    | nil => exact .inl ⟨by simpa using hname, by simpa using hmore⟩
    | cons d tail =>
      have hd : isNameChar d = true := hn d (by simp [hname])
      rw [hmore]
      exact .inr (touchesKeyword_of_isNameChar hd)

theorem not_touchesKeyword_of_isAsciiBlank {c : Char} (h : isAsciiBlank c = true) :
    touchesKeyword c = false := by
  simp only [isAsciiBlank, Bool.or_eq_true, beq_iff_eq] at h
  rcases h with ((((rfl | rfl) | rfl) | rfl) | rfl)
  all_goals rfl

/-- A name opens a block only if it is a keyword and a brace follows. -/
theorem opening?_name (previous : Option Char) {name rest : List Char} {sep : Char}
    (hn : ∀ c ∈ name, isNameChar c = true)
    (hsep : sep ∉ "style".toList ∧ sep ∉ "script".toList)
    (hk : name ≠ "style".toList ∧ name ≠ "script".toList ∨ isAsciiBlank sep = false ∧ sep ≠ '{') :
    opening? previous (name ++ sep :: rest) = none := by
  rw [Option.eq_none_iff_forall_ne_some]
  rintro ⟨kind, m⟩ h
  obtain ⟨⟨word, blanks, hword, hblanks, hopening⟩, -⟩ := opens_of_opening? h
  have hw : (word = "style".toList ∨ word = "script".toList) ∧ sep ∉ word := by
    cases kind with
    | markup => cases hword
    | style =>
      cases hword
      exact ⟨.inl rfl, hsep.1⟩
    | script =>
      cases hword
      exact ⟨.inr rfl, hsep.2⟩
  have hafter : after? word (name ++ sep :: rest) =
      some (blanks ++ '{' :: (name ++ sep :: rest).drop m) := by
    rw [after?_eq_some_iff]
    conv_lhs => rw [← List.take_append_drop m (name ++ sep :: rest), hopening]
    simp
  rcases after?_name hn hw.2 hafter with ⟨hname, hmore⟩ | htouches
  · rcases hk with hk | ⟨hblank, hbrace⟩
    · exact hw.1.elim (fun h => hk.1 (hname.trans h)) fun h => hk.2 (hname.trans h)
    · -- what follows the keyword is the separator, and it is no blank and no brace
      cases blanks with
      | nil => exact hbrace (List.cons.inj hmore).1.symm
      | cons b blanks =>
        rw [← (List.cons.inj hmore).1, hblanks b List.mem_cons_self] at hblank
        cases hblank
  · cases blanks with
    | nil => cases htouches
    | cons b blanks =>
      rw [List.cons_append, List.head?_cons, Option.any_some,
        not_touchesKeyword_of_isAsciiBlank (hblanks b List.mem_cons_self)] at htouches
      cases htouches

theorem Passes.name (previous : Option Char) {c : Char} {cs : List Char} {sep : Char}
    (hc : isNameStart c = true) (hcs : ∀ d ∈ cs, isNameChar d = true)
    (hsep : sep ∉ ['"', '\x27', '/', '-', 's'] ∧ sep ∉ "style".toList ∧ sep ∉ "script".toList)
    (hk : c :: cs ≠ "style".toList ∧ c :: cs ≠ "script".toList ∨
      isAsciiBlank sep = false ∧ sep ≠ '{') :
    Passes previous (c :: cs ++ [sep]) (some sep) := by
  have hname := isNameChar_of_isNameStart hc
  have hall : ∀ d ∈ c :: cs, isNameChar d = true := by
    simpa using ⟨hname, hcs⟩
  obtain ⟨last, -, htail⟩ := Passes.nameTail hname hcs
  obtain ⟨hd, hq, hs, -⟩ := closed_of_isNameChar hname
  have hh : c ≠ '-' := by
    rintro rfl
    exact absurd hc (by decide)
  intro offset rest
  have hfirst : cutFrom previous offset (c :: (cs ++ sep :: rest)) =
      (cutFrom (some c) (offset + size [c]) (cs ++ sep :: rest)).map (consMarkup [c]) :=
    cutFrom_single offset (fun h => h.1.elim hd hq) (fun _ => commentLength?_eq_none hs hh)
      (opening?_name previous hall hsep.2 hk)
  have hrest := htail.append (.punctuation (some last) hsep.1) (offset + size [c]) rest
  rw [List.append_assoc, List.singleton_append] at hrest
  rw [List.append_assoc, List.singleton_append, List.cons_append, hfirst, hrest, map_consMarkup_map]
  simp [Nat.add_assoc]

end Chtl.Piece
