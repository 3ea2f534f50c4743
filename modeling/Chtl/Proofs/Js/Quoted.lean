import Chtl.Proofs.Text.Paired
import Chtl.Proofs.Text.Replace
import Chtl.Script.Literal
import Mathlib.Tactic.Common

/-!
# Literals between quotes

What the page's code reads where a quote opens a literal: characters that stand for themselves, and
escape sequences, up to the quote that closes it on the same line. The value is a row of code units
of UTF-16. A text that is written between single quotes is read as itself without its carriage
returns, whatever code stands behind it.
-/

set_option autoImplicit false
set_option linter.all false

namespace Chtl

open Text

namespace Js

/-! ## Reading literals -/

/-- The code units of a code point: one, or two surrogates with ten bits of what is left each. -/
def units (point : Nat) : List UInt16 :=
  if point < 0x10000 then [UInt16.ofNat point]
  else
    [UInt16.ofNat (0xd800 + (point - 0x10000) / 0x400),
      UInt16.ofNat (0xdc00 + (point - 0x10000) % 0x400)]

/-- A text in UTF-16. -/
def utf16 (cs : List Char) : List UInt16 := cs.flatMap fun c => units c.toNat

def hexDigit? (c : Char) : Option Nat :=
  if isAsciiDigit c then some (c.toNat - 48)
  else if 'a' ≤ c ∧ c ≤ 'f' then some (c.toNat - 87)
  else if 'A' ≤ c ∧ c ≤ 'F' then some (c.toNat - 55)
  else none

/-- The number that hexadecimal digits spell. -/
def hexNumber? (digits : List Char) : Option Nat :=
  digits.foldlM (fun n c => (hexDigit? c).map (16 * n + ·)) 0

/-- The number that `n` hexadecimal digits at the front spell. -/
def fixedHex? (n : Nat) (cs : List Char) : Option Nat :=
  if n ≤ cs.length then hexNumber? (cs.take n) else none

/-- The character that a letter stands for behind a backslash. -/
def control (c : Char) : Char :=
  if c = 'b' then '\x08'
  else if c = 't' then '\t'
  else if c = 'n' then '\n'
  else if c = 'v' then '\x0b'
  else if c = 'f' then '\x0c'
  else if c = 'r' then '\r'
  else c

def isLineEnd (c : Char) : Bool := c == '\n' || c == '\r' || c == '\u2028' || c == '\u2029'

/-- The value of the escape sequence behind a backslash and its length. A line end there goes on
with the literal on the next line. Octal numbers are not read: not all code may have them. -/
def escape? : List Char → Option (List UInt16 × Nat)
  | [] => none
  | c :: cs =>
    if c = 'x' then (fixedHex? 2 cs).map fun n => (units n, 3)
    else if c = 'u' then
      if cs.head? = some '{' then
        let digits := (cs.drop 1).takeWhile (· != '}')
        if digits = [] ∨ (cs.drop (1 + digits.length)).head? ≠ some '}' then none
        else
          (hexNumber? digits).bind fun n =>
            if n < 0x110000 then some (units n, digits.length + 3) else none
      else (fixedHex? 4 cs).map fun n => (units n, 5)
    else if isAsciiDigit c then
      if c = '0' ∧ cs.head?.any isAsciiDigit = false then some ([0], 1) else none
    else if c = '\r' ∧ cs.head? = some '\n' then some ([], 2)
    else if isLineEnd c then some ([], 1)
    else some (units (control c).toNat, 1)

/-- The value of what stands in a literal and what follows its closing quote. -/
def quoted? (quote : Char) (cs : List Char) : Option (List UInt16 × List Char) :=
  match cs with
  | [] => none
  | c :: rest =>
    if c = quote then some ([], rest)
    else if c = '\\' then
      match escape? rest with
      | none => none
      | some (value, n) => (quoted? quote (rest.drop n)).map fun r => (value ++ r.1, r.2)
    else if c = '\n' ∨ c = '\r' then none
    else (quoted? quote rest).map fun r => (units c.toNat ++ r.1, r.2)
termination_by cs.length
decreasing_by all_goals simp only [List.length_cons, List.length_drop]; omega

/-- The value of the literal at the front of a text and what follows it. -/
def literal? : List Char → Option (List UInt16 × List Char)
  | [] => none
  | c :: cs => if c = '"' ∨ c = '\x27' then quoted? c cs else none

end Js

namespace Script

/-! ## Writing literals -/

/-- What is replaced in a text that is put between single quotes, in this order. -/
def quoteRules : List (Char × List Char) :=
  [('\\', ['\\', '\\']), ('\x27', ['\\', '\x27']), ('\n', ['\\', 'n']), ('\r', [])]

theorem replaceInTurn_quoteRules (c : Char) : replaceInTurn quoteRules [c] = escapeChar c := by
  by_cases hback : c = '\\'
  · subst hback; rfl
  by_cases hquote : c = '\x27'
  · subst hquote; rfl
  by_cases hfeed : c = '\n'
  · subst hfeed; rfl
  by_cases hreturn : c = '\r'
  · subst hreturn; rfl
  simp [replaceInTurn, quoteRules, replaceChar, escapeChar, hback, hquote, hfeed, hreturn]

theorem escapeString_eq (s : String) :
    (escapeString s).toList = replaceInTurn quoteRules s.toList := by
  rw [escapeString, String.toList_ofList, replaceInTurn_eq_flatMap replaceInTurn_quoteRules]

/-- A character that may stand for itself between single quotes. -/
def IsPlain (c : Char) : Prop := c ≠ '\\' ∧ c ≠ '\x27' ∧ c ≠ '\n' ∧ c ≠ '\r'

/-- A character is written behind a backslash or as itself, and a carriage return not at all. -/
theorem escapeChar_cases (c : Char) :
    (∃ x, escapeChar c = ['\\', x] ∧ x ≠ '\n' ∧ x ≠ '\r') ∨
      (escapeChar c = [c] ∧ IsPlain c) ∨ (escapeChar c = [] ∧ c = '\r') := by
  unfold escapeChar
  split_ifs with hback hquote hfeed hreturn
  · exact .inl ⟨_, rfl, by decide⟩
  · exact .inl ⟨_, rfl, by decide⟩
  · exact .inl ⟨_, rfl, by decide⟩
  · exact .inr (.inr ⟨rfl, hreturn⟩)
  · exact .inr (.inl ⟨rfl, hback, hquote, hfeed, hreturn⟩)

theorem paired_escapeChar (c : Char) : Paired (escapeChar c) := by
  rcases escapeChar_cases c with ⟨x, hpair, -⟩ | ⟨hself, hplain⟩ | ⟨hnone, -⟩
  · exact hpair ▸ paired_pair x
  · exact hself ▸ paired_singleton hplain.1
  · exact hnone ▸ paired_nil

theorem not_terminated_escapeChar (c : Char) : ¬ Terminated '\x27' (escapeChar c) := by
  rcases escapeChar_cases c with ⟨x, hpair, -⟩ | ⟨hself, hplain⟩ | ⟨hnone, -⟩
  · exact hpair ▸ not_terminated_pair (by decide) x
  · exact hself ▸ not_terminated_singleton hplain.2.1
  · exact hnone ▸ not_terminated_nil

theorem no_line_end_escapeChar (c : Char) : '\n' ∉ escapeChar c ∧ '\r' ∉ escapeChar c := by
  rcases escapeChar_cases c with ⟨x, hpair, hx⟩ | ⟨hself, hplain⟩ | ⟨hnone, -⟩
  · simp [hpair, hx.1.symm, hx.2.symm]
  · simp [hself, hplain.2.2.1.symm, hplain.2.2.2.symm]
  · simp [hnone]

/-! ## What is written is read back -/

theorem quoted?_pair {value : List UInt16} {x : Char} {rest : List Char}
    (h : Js.escape? (x :: rest) = some (value, 1)) :
    Js.quoted? '\x27' ('\\' :: x :: rest) =
      (Js.quoted? '\x27' rest).map fun r => (value ++ r.1, r.2) := by
  rw [Js.quoted?, if_neg (by decide), if_pos rfl, h]
  rfl

theorem quoted?_plain {c : Char} (hc : IsPlain c) (rest : List Char) :
    Js.quoted? '\x27' (c :: rest) =
      (Js.quoted? '\x27' rest).map fun r => (Js.units c.toNat ++ r.1, r.2) := by
  obtain ⟨hback, hquote, hfeed, hreturn⟩ := hc
  rw [Js.quoted?, if_neg hquote, if_neg hback, if_neg (not_or.mpr ⟨hfeed, hreturn⟩)]

/-- What a character is written as is read as the character, or as nothing if it is a carriage
return. -/
theorem quoted?_escapeChar (c : Char) (rest : List Char) :
    Js.quoted? '\x27' (escapeChar c ++ rest) =
      (Js.quoted? '\x27' rest).map fun r => (Js.utf16 ([c].filter (· != '\r')) ++ r.1, r.2) := by
  unfold escapeChar
  split_ifs with hback hquote hfeed hreturn
  · subst hback
    exact quoted?_pair rfl
  · subst hquote
    exact quoted?_pair rfl
  · subst hfeed
    exact quoted?_pair rfl
  · simp [hreturn, Js.utf16]
  · simp [quoted?_plain ⟨hback, hquote, hfeed, hreturn⟩, Js.utf16, hreturn]

theorem quoted?_flatMap (cs rest : List Char) :
    Js.quoted? '\x27' (cs.flatMap escapeChar ++ '\x27' :: rest) =
      some (Js.utf16 (cs.filter (· != '\r')), rest) := by
  induction cs with
  | nil =>
    rw [List.flatMap_nil, List.nil_append, Js.quoted?, if_pos rfl]
    rfl
  | cons c cs ih =>
    have hcs : (c :: cs).filter (· != '\r') = [c].filter (· != '\r') ++ cs.filter (· != '\r') :=
      List.filter_append [c] cs
    rw [List.flatMap_cons, List.append_assoc, quoted?_escapeChar, ih, Option.map_some, hcs,
      Js.utf16, Js.utf16, Js.utf16, List.flatMap_append]

/-- A text is written between single quotes by replacements in turn. No line ends there, no quote
ends the literal before its last character, and no backslash takes that one along. Whatever stands
behind it, what is read is the text without its carriage returns. -/
theorem singleQuoted_denotes (s : String) (rest : List Char) :
    (escapeString s).toList = replaceInTurn quoteRules s.toList ∧
    (singleQuoted s).toList = '\x27' :: ((escapeString s).toList ++ ['\x27']) ∧
    ('\n' ∉ (escapeString s).toList ∧ '\r' ∉ (escapeString s).toList) ∧
    ¬ Terminated '\x27' (escapeString s).toList ∧ Paired (escapeString s).toList ∧
    Js.literal? ((singleQuoted s).toList ++ rest) =
      some (Js.utf16 (s.toList.filter (· != '\r')), rest) := by
  have hwritten : (escapeString s).toList = s.toList.flatMap escapeChar := String.toList_ofList
  have hquoted : (singleQuoted s).toList = '\x27' :: ((escapeString s).toList ++ ['\x27']) := by
    simp [singleQuoted]
  refine ⟨escapeString_eq s, hquoted, ⟨?_, ?_⟩, ?_, ?_, ?_⟩
  · rw [hwritten, List.mem_flatMap]
    rintro ⟨c, -, hc⟩
    exact (no_line_end_escapeChar c).1 hc
  · rw [hwritten, List.mem_flatMap]
    rintro ⟨c, -, hc⟩
    exact (no_line_end_escapeChar c).2 hc
  · rw [hwritten]
    exact not_terminated_flatMap (fun c => ⟨paired_escapeChar c, not_terminated_escapeChar c⟩) _
  · rw [hwritten]
    exact paired_flatMap paired_escapeChar _
  · rw [hquoted, hwritten, List.cons_append, List.append_assoc, List.singleton_append, Js.literal?,
      if_pos (.inr rfl), quoted?_flatMap]

end Script

end Chtl
