import Chtl.Markup.Parse
import Chtl.Proofs.Markup.Reads
import Chtl.Proofs.Static.Scan
import Chtl.Proofs.Text.Word

/-!
# Texts and attributes of a static source

A name ends at the punctuation behind it and a literal at its closing quote, so the reader gets the
texts and values that were written.
-/

set_option autoImplicit false
set_option linter.all false

namespace Chtl.Static

open Text Markup

section

variable {left : List Char}

theorem triviaLength_solid {c : Char} (hb : isBlank c = false) (hs : c ≠ '/') :
    triviaLength (c :: left) = 0 := by
  have hcomment : hiddenCommentLength? (c :: left) = none := by
    unfold hiddenCommentLength?
    split <;> simp_all
  rw [triviaLength.eq_def]
  dsimp only
  rw [if_neg (by simp [hb]), hcomment]

theorem triviaLength_blank {c : Char} (hb : isBlank c = true) :
    triviaLength (c :: left) = 1 + triviaLength left := by
  rw [triviaLength.eq_def]
  dsimp only
  rw [if_pos hb]

theorem name?_append {name : List Char} (h : isName name = true)
    (hleft : ∀ c ∈ left.head?, isNameChar c = false) : name? (name ++ left) = some name := by
  obtain ⟨c, cs, rfl, hc, hcs⟩ := isName_cons h
  rw [List.cons_append, name?, if_pos hc, List.takeWhile_append_of_pos hcs]
  cases left with
  | nil => simp
  | cons d left => simp [hleft d rfl]

variable {stops : List Char} {before : Option Char}

theorem rawLength_stop {c : Char} (hc : c ∈ stops) (hbrace : c ≠ '{') :
    rawLength stops before 0 (c :: left) = 0 := by
  rw [rawLength]
  simp [hc, hbrace]

theorem rawLength_blank (h : ' ' ∉ stops) :
    rawLength stops before 0 (' ' :: left) = 1 + rawLength stops (some ' ') 0 left := by
  rw [rawLength]
  simp [h]

theorem rawLength_quoted (h : '"' ∉ stops) (hbefore : atTokenStart before = true) (s : String) :
    rawLength stops before 0 (quoted s ++ left) =
      (quoted s).length + rawLength stops (some '"') 0 left := by
  rw [quoted_append, rawLength, if_neg (by simp [h]), if_pos ⟨.inl rfl, hbefore⟩, escaped,
    quotedLength_escaped, ← escaped]
  dsimp only
  rw [cons_take_escaped, drop_escaped, getLast?_quoted, length_quoted]
  rfl

end

section

variable {s : Setting} {left : List Char}

/-- A character that neither blanks nor comments begin with. -/
def isSolid (c : Char) : Bool := !isBlank c && c != '/'

theorem reads_skipTrivia {c : Char} (h : isSolid c = true) :
    Reads s (c :: left) Reader.skipTrivia (c :: left) fun _ => True := by
  simp only [isSolid, Bool.and_eq_true, Bool.not_eq_true', bne_iff_ne] at h
  have hskip : Reads s (c :: left) Reader.skipTrivia _ _ := Reads.skipTrivia
  rwa [triviaLength_solid h.1 h.2] at hskip

theorem reads_skipTrivia_blank {c : Char} (h : isSolid c = true) :
    Reads s (' ' :: c :: left) Reader.skipTrivia (c :: left) fun _ => True := by
  simp only [isSolid, Bool.and_eq_true, Bool.not_eq_true', bne_iff_ne] at h
  have hskip : Reads s (' ' :: c :: left) Reader.skipTrivia _ _ := Reads.skipTrivia
  rwa [triviaLength_blank rfl, triviaLength_solid h.1 h.2] at hskip

/-- A name begins with none of the characters that other items begin with. -/
theorem starts_of_isNameStart {c : Char} (h : isNameStart c = true) :
    isSolid c = true ∧ c ∉ ['}', '-', '@', '['] := by
  have hchar := isNameChar_of_isNameStart h
  have hblank : isBlank c = false := by
    rw [Bool.eq_false_iff]
    intro hb
    rw [not_isNameChar_of_isBlank hb] at hchar
    cases hchar
  have hne (d : Char) (hd : isNameStart d = false) : c ≠ d := by
    rintro rfl
    rw [hd] at h
    cases h
  refine ⟨by simp [isSolid, hblank, hne '/' rfl], ?_⟩
  simp [hne '}' rfl, hne '-' rfl, hne '@' rfl, hne '[' rfl]

theorem reads_textBlock (value : String) (start : Nat) :
    Reads s ('{' :: ' ' :: (quoted value ++ ' ' :: '}' :: left)) (textBlock start) left
      fun node => ∃ span, node = .text value span := by
  have hraw (before : Option Char) :
      rawLength ['}'] before 0 (' ' :: (quoted value ++ ' ' :: '}' :: left)) =
        ([' '] ++ (quoted value ++ [' '])).length := by
    rw [rawLength_blank (by decide), rawLength_quoted (by decide) rfl,
      rawLength_blank (by decide), rawLength_stop (by decide) (by decide)]
    simp
    omega
  have htext : ' ' :: (quoted value ++ ' ' :: '}' :: left) =
      ([' '] ++ (quoted value ++ [' '])) ++ '}' :: left := by
    simp
  have htake := Reads.takeRaw (s := s) hraw
  rw [htext, List.drop_left, List.take_left] at htake
  apply (Reads.expect '{' _).bind
  intro _ _
  rw [htext]
  refine htake.bind ?_
  rintro ⟨raw, offset⟩ rfl
  apply (Reads.expect '}' _).bind
  intro _ _
  refine (Reads.spanFrom start).bind fun span _ => .pure ⟨span, ?_⟩
  have hblank : ∀ c ∈ [' '], isBlank c = true := List.all_eq_true.mp rfl
  rw [trim_quoted value hblank hblank, unquote_quoted]

theorem reads_addAttribute (e : Element) {name : String} (hname : name ≠ "text") (value : String)
    (start : Nat) :
    Reads s (' ' :: (quoted value ++ ';' :: left)) (addAttribute e name start) left
      fun e' => ∃ span, e' = e.setAttribute ⟨name, .literal value, span⟩ := by
  have hraw (before : Option Char) :
      rawLength [';', '}'] before 0 (' ' :: (quoted value ++ ';' :: left)) =
        ([' '] ++ quoted value).length := by
    rw [rawLength_blank (by decide), rawLength_quoted (by decide) rfl,
      rawLength_stop (by decide) (by decide)]
    simp
    omega
  have htext : ' ' :: (quoted value ++ ';' :: left) = ([' '] ++ quoted value) ++ ';' :: left := by
    simp
  have htrim : trim ([' '] ++ quoted value) = quoted value := by
    have hblank : ∀ c ∈ [' '], isBlank c = true := List.all_eq_true.mp rfl
    simpa using trim_quoted value hblank (List.forall_mem_nil _)
  have htake := Reads.takeRaw (s := s) hraw
  rw [htext, List.drop_left, List.take_left] at htake
  rw [htext]
  refine htake.bind ?_
  rintro ⟨raw, offset⟩ rfl
  apply (Reads.eat ';').bind
  intro _ _
  dsimp only [trimAt]
  rw [htrim]
  apply (Reads.spanFrom start).bind
  intro span _
  apply (Reads.spanOf _ _).bind
  intro _ _
  apply (Reads.expandedValue _ _).bind_value
  rw [if_neg hname, unquote_quoted]
  exact .pure ⟨span, rfl⟩

end

end Chtl.Static
