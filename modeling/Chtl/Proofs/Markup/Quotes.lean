import Chtl.Proofs.Markup.Leads
import Chtl.Proofs.Text.Bytes

/-!
# Which quotes open a string

A source is cut by the byte before a quote, and markup is read by the character before it. Both
take a quote behind a word for an apostrophe, but a letter or number outside ASCII ends in a byte
that is part of no word of ASCII. There, and nowhere else, the two differ: the quote opens a string
for the one that cuts and is an apostrophe for the one that reads.
-/

set_option autoImplicit false
set_option linter.all false

namespace Chtl

open Text

namespace Piece

/-- Whether a quote behind the byte is an apostrophe. -/
def endsWord (b : UInt8) : Bool :=
  let c := Char.ofUInt8 b
  isAsciiAlnum c || c == '_' || c == '\\'

/-- Whether a quote at an offset opens a string, by the byte before it. -/
def opensStringAt (bytes : List UInt8) (i : Nat) : Bool :=
  i == 0 || !(bytes[i - 1]?.any endsWord)

theorem toNat_ofUInt8 (b : UInt8) : (Char.ofUInt8 b).toNat = b.toNat := UInt8.toNat_toUInt32 b

/-- Outside ASCII no character and no byte is part of a word. -/
theorem not_endsWord {c : Char} (h : 128 ≤ c.toNat) :
    (isAsciiAlnum c || c == '_' || c == '\\') = false := by
  have halnum : isAsciiAlnum c = false := by
    by_contra hword
    have := toNat_lt_of_isAsciiAlnum (Bool.eq_true_of_not_eq_false hword)
    omega
  have hne {x : Char} (hx : x.toNat < 128) : (c == x) = false := by
    rw [beq_eq_false_iff_ne]
    rintro rfl
    omega
  rw [halnum, hne (by decide), hne (by decide)]
  rfl

/-- The last byte of a character says whether the character is part of a word of ASCII. -/
theorem any_endsWord (c : Char) :
    (String.utf8EncodeChar c).getLast?.any endsWord =
      (isAsciiAlnum c || c == '_' || c == '\\') := by
  by_cases hc : c.toNat < 128
  · have hbyte : Char.ofUInt8 (UInt8.ofNat c.toNat) = c := by
      rw [← Char.toNat_inj, toNat_ofUInt8, toNat_ofNat_ascii hc]
    rw [utf8EncodeChar_ascii hc, List.getLast?_singleton, Option.any_some, endsWord, hbyte]
  · rw [not_endsWord (Nat.le_of_not_lt hc), Option.any_eq_false]
    intro b hb
    have hhigh := le_of_mem_utf8EncodeChar (Nat.le_of_not_lt hc) (List.mem_of_getLast? hb)
    exact Bool.not_eq_true _ ▸ not_endsWord ((toNat_ofUInt8 b).symm ▸ hhigh)

/-- Cutting by the character before a quote is cutting by the byte before it. -/
theorem opensStringAt_bytes (before after : List Char) :
    opensStringAt (bytes (before ++ after)) (size before) = opensString before.getLast? := by
  rcases List.eq_nil_or_concat' before with rfl | ⟨front, c, rfl⟩
  · rfl
  · have hne : bytes (front ++ [c]) ≠ [] := by
      rw [← List.length_pos_iff, length_bytes]
      exact size_pos (by simp)
    have hpos : size (front ++ [c]) ≠ 0 := Nat.ne_of_gt (size_pos (by simp))
    rw [opensStringAt, beq_false_of_ne hpos, Bool.false_or, getElem?_bytes_before hne,
      getLast?_bytes_concat, any_endsWord, List.getLast?_concat, opensString]

-- Behind the last byte of a letter outside ASCII a quote opens a string.
example : opensStringAt (bytes ['é', '\x27', 's']) 2 = true := by decide +kernel

end Piece

namespace Markup

/-- A letter or number outside ASCII. -/
def isWideAlphanumeric (c : Char) : Bool := isAlphanumeric c && !isAsciiAlnum c

theorem isAlphanumeric_of_isAsciiAlnum {c : Char} (h : isAsciiAlnum c = true) :
    isAlphanumeric c = true := by
  rw [isAlphanumeric, if_pos (toNat_lt_of_isAsciiAlnum h), h]

/-- What opens a string in reading does so in cutting, and the rest are quotes behind a wide letter
or number. -/
theorem opensString_iff (before : Option Char) :
    Piece.opensString before = true ↔
      atTokenStart before = true ∨ before.any isWideAlphanumeric = true := by
  cases before with
  | none => simp [Piece.opensString, atTokenStart]
  | some c =>
    have hunderscore : c = '_' → isAlphanumeric c = false := by rintro rfl; decide
    have hbackslash : c = '\\' → isAlphanumeric c = false := by rintro rfl; decide
    have hascii := @isAlphanumeric_of_isAsciiAlnum c
    simp only [Piece.opensString, atTokenStart, Option.any_some, isWideAlphanumeric]
    grind

theorem atTokenStart_of_wide {before : Option Char} (h : before.any isWideAlphanumeric = true) :
    atTokenStart before = false := by
  cases before with
  | none => cases h
  | some c =>
    have hword : isAlphanumeric c = true := (Bool.and_eq_true_iff.mp h).1
    rw [atTokenStart, hword]
    rfl

/-- A character of ASCII stands at the offset of its byte, and it is read from one place alone. -/
theorem exists_cursor_of_getElem?_bytes {text : List Char} {i : Nat} {q : Char}
    (hq : q.toNat < 128) (hi : (bytes text)[i]? = some (UInt8.ofNat q.toNat)) :
    ∃ c : Cursor, (∀ d : Cursor, d.In text ∧ d.offset = i ↔ d = c) ∧ c.peek? = some q := by
  obtain ⟨read, rest, rfl, hsize⟩ := exists_split_of_getElem?_bytes hq hi
  have hin : Cursor.In (read ++ q :: rest) ⟨read.getLast?, i, q :: rest⟩ :=
    ⟨read, rfl, hsize.symm, rfl⟩
  refine ⟨_, fun d => ⟨fun ⟨hd, hoffset⟩ => hd.eq_of_offset hin hoffset, ?_⟩, rfl⟩
  rintro rfl
  exact ⟨hin, rfl⟩

/-- At a quote there is one place to read from, and what is read there for the beginning of a string
is cut for one too. Cutting and reading differ exactly behind a letter or number outside ASCII. -/
theorem quote_opens_alike_iff {text : List Char} {i : Nat} {q : Char} (hq : q = '"' ∨ q = '\x27')
    (hi : (bytes text)[i]? = some (UInt8.ofNat q.toNat)) :
    ∃ c : Cursor, (∀ d : Cursor, d.In text ∧ d.offset = i ↔ d = c) ∧ c.peek? = some q ∧
      (atTokenStart c.before = true → Piece.opensStringAt (bytes text) i = true) ∧
      ((Piece.opensStringAt (bytes text) i = true ↔ atTokenStart c.before = true) ↔
        c.before.any isWideAlphanumeric = false) := by
  have hascii : q.toNat < 128 := by
    rcases hq with rfl | rfl <;> decide
  obtain ⟨c, honly, hpeek⟩ := exists_cursor_of_getElem?_bytes hascii hi
  obtain ⟨⟨read, hsplit, hoffset, hbefore⟩, rfl⟩ := (honly c).mpr rfl
  have hcut : Piece.opensStringAt (bytes text) c.offset = true ↔
      atTokenStart c.before = true ∨ c.before.any isWideAlphanumeric = true := by
    rw [hoffset, hsplit, Piece.opensStringAt_bytes, ← hbefore, opensString_iff]
  refine ⟨c, honly, hpeek, fun hstart => hcut.mpr (.inl hstart), ?_⟩
  rw [hcut]
  constructor
  · intro halike
    by_contra hwide
    have hwide := Bool.eq_true_of_not_eq_false hwide
    have hstart := halike.mp (.inr hwide)
    rw [atTokenStart_of_wide hwide] at hstart
    cases hstart
  · intro hnarrow
    rw [hnarrow, or_iff_left Bool.false_ne_true]

/-- A quote behind a letter outside ASCII and a blank. -/
theorem quote_opens_alike_iff_blank :
    (bytes "é \"b\"".toList)[3]? = some (UInt8.ofNat '"'.toNat) ∧
      ∃ c : Cursor, (∀ d : Cursor, d.In "é \"b\"".toList ∧ d.offset = 3 ↔ d = c) ∧
        c.peek? = some '"' ∧
        (atTokenStart c.before = true → Piece.opensStringAt (bytes "é \"b\"".toList) 3 = true) ∧
        ((Piece.opensStringAt (bytes "é \"b\"".toList) 3 = true ↔ atTokenStart c.before = true) ↔
          c.before.any isWideAlphanumeric = false) := by
  have hbyte : (bytes "é \"b\"".toList)[3]? = some (UInt8.ofNat '"'.toNat) := by
    rw [String.toList_ofList]
    rfl
  exact ⟨hbyte, quote_opens_alike_iff (.inl rfl) hbyte⟩

/-- Behind such a letter the apostrophe opens a string that hides the style block further on. -/
theorem quote_opens_behind_wide_letter :
    ∃ text, text =
        "div \x7b text \x7b é's \x7d \x7d p \x7b style \x7b color: red; \x7d \x7d".toList ∧
      (bytes text)[15]? = some (UInt8.ofNat '\x27'.toNat) ∧
      Piece.opensStringAt (bytes text) 15 = true ∧
      (∃ c : Cursor, c.In text ∧ c.offset = 15 ∧ c.peek? = some '\x27' ∧
        atTokenStart c.before = false) ∧
      (scan text).toOption.map (fun s => s.fragments.map (·.kind)) = some [.markup] := by
  refine ⟨_, rfl, ?_, ?_, ⟨_, (Cursor.In.start _).advance 14, ?_⟩, ?_⟩
  all_goals
    rw [String.toList_ofList]
    decide +kernel

end Markup

end Chtl
