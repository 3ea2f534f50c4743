import Chtl.Fragment.Piece
import Chtl.Markup.Value
import Mathlib.Tactic.Common

/-!
# Quoted literals

Any text can be written between double quotes with a backslash before each quote and backslash. Both
string skippers, the one of the scanner and the one of the reader, then stop at the closing quote,
and taking the quotes off gives the text back.
-/

set_option autoImplicit false
set_option linter.all false

namespace Chtl.Static

open Text

def quotedChar (c : Char) : List Char := if c = '\\' ∨ c = '"' then ['\\', c] else [c]

def escaped (s : String) : List Char := s.toList.flatMap quotedChar

/-- A text as a literal. -/
def quoted (s : String) : List Char := '"' :: (escaped s ++ ['"'])

/-! A literal is its opening quote and one character more than its text. -/

theorem quoted_append (s : String) (left : List Char) :
    quoted s ++ left = '"' :: (escaped s ++ '"' :: left) := by
  simp [quoted]

theorem cons_take_escaped (s : String) (left : List Char) :
    '"' :: (escaped s ++ '"' :: left).take ((escaped s).length + 1) = quoted s := by
  rw [List.take_length_add_append, quoted]
  rfl

theorem drop_escaped (s : String) (left : List Char) :
    (escaped s ++ '"' :: left).drop ((escaped s).length + 1) = left := by
  rw [List.drop_length_add_append]
  rfl

theorem getLast?_quoted (s : String) : (quoted s).getLast? = some '"' := by
  rw [quoted, ← List.cons_append, List.getLast?_concat]

theorem length_quoted (s : String) : (quoted s).length = 1 + ((escaped s).length + 1) := by
  rw [quoted, List.length_cons, List.length_append, List.length_singleton, Nat.add_comm]

theorem stringLength_escaped (cs rest : List Char) :
    Piece.stringLength '"' (cs.flatMap quotedChar ++ '"' :: rest) =
      (cs.flatMap quotedChar).length + 1 := by
  induction cs with
  | nil => rfl
  | cons c cs ih =>
    rw [List.flatMap_cons, List.append_assoc]
    by_cases hc : c = '\\' ∨ c = '"'
    · rw [quotedChar, if_pos hc, List.length_append]
      simp only [List.cons_append, List.nil_append, Piece.stringLength, ih, List.length_cons,
        List.length_nil]
      omega
    · obtain ⟨hb, hq⟩ := not_or.mp hc
      rw [quotedChar, if_neg hc, List.length_append]
      simp only [List.cons_append, List.nil_append]
      rw [Piece.stringLength, if_neg hq, ih, List.length_singleton]
      · omega
      · exact fun h => absurd h hb
      · exact fun a b h => absurd h hb

theorem quotedLength_escaped (cs rest : List Char) :
    Markup.quotedLength '"' false (cs.flatMap quotedChar ++ '"' :: rest) =
      (cs.flatMap quotedChar).length + 1 := by
  induction cs with
  | nil => rfl
  | cons c cs ih =>
    rw [List.flatMap_cons, List.append_assoc]
    by_cases hc : c = '\\' ∨ c = '"'
    · rw [quotedChar, if_pos hc, List.length_append]
      simp only [List.cons_append, List.nil_append, Markup.quotedLength, if_true, ih,
        List.length_cons, List.length_nil]
      omega
    · obtain ⟨hb, hq⟩ := not_or.mp hc
      rw [quotedChar, if_neg hc, List.length_append]
      simp only [List.cons_append, List.nil_append, Markup.quotedLength, if_neg hb, if_neg hq, ih,
        List.length_singleton]
      omega

theorem unescape_escaped (cs : List Char) : Markup.unescape (cs.flatMap quotedChar) = cs := by
  induction cs with
  | nil => rfl
  | cons c cs ih =>
    rw [List.flatMap_cons]
    by_cases hc : c = '\\' ∨ c = '"'
    · rw [quotedChar, if_pos hc]
      simp only [List.cons_append, List.nil_append, Markup.unescape, ih]
    · obtain ⟨hb, -⟩ := not_or.mp hc
      rw [quotedChar, if_neg hc]
      simp only [List.cons_append, List.nil_append]
      rw [Markup.unescape, ih]
      · exact fun h => absurd h hb
      · exact fun a b h => absurd h hb

theorem unquote_quoted (s : String) : String.ofList (Markup.unquote (quoted s)) = s := by
  rw [quoted, Markup.unquote, if_pos ⟨.inl rfl, by simp⟩, List.dropLast_concat, escaped,
    unescape_escaped, String.ofList_toList]

/-- Blanks around a literal are trimmed, those inside it are not. -/
theorem trim_quoted (s : String) {lead trail : List Char} (hl : ∀ c ∈ lead, isBlank c = true)
    (ht : ∀ c ∈ trail, isBlank c = true) : trim (lead ++ (quoted s ++ trail)) = quoted s := by
  have hquote : isBlank '"' = false := rfl
  have hleft : (lead ++ (quoted s ++ trail)).dropWhile isBlank = quoted s ++ trail := by
    rw [List.dropWhile_append_of_pos hl, quoted, List.cons_append,
      List.dropWhile_cons_of_neg (by simp [hquote])]
  have hright : (quoted s ++ trail).reverse.dropWhile isBlank = (quoted s).reverse := by
    rw [List.reverse_append, List.dropWhile_append_of_pos (by simpa using ht), quoted]
    simp [hquote]
  rw [trim, trimLeft, trimRight, hleft, hright, List.reverse_reverse]

end Chtl.Static
