import Chtl.Text.Class

/-!
# Texts shown to people

A text between double quotes with everything visible: the quote, the backslash and four control
characters have short spellings, other hidden characters are spelt by their number.
-/

set_option autoImplicit false
set_option linter.all false

namespace Chtl.Text

/-- How one character is shown between quotes. -/
def shownChar (c : Char) : List Char :=
  if c = '"' then ['\\', '"']
  else if c = '\\' then ['\\', '\\']
  else if c = '\t' then ['\\', 't']
  else if c = '\r' then ['\\', 'r']
  else if c = '\n' then ['\\', 'n']
  else if c = '\x00' then ['\\', '0']
  else if isHidden c then ['\\', 'u', '{'] ++ Nat.toDigits 16 c.toNat ++ ['}']
  else [c]

def shown (s : String) : String :=
  String.ofList ('"' :: (s.toList.flatMap shownChar ++ ['"']))

/-- Texts in square brackets. -/
def shownList (texts : List String) : String :=
  "[" ++ String.intercalate ", " (texts.map shown) ++ "]"

end Chtl.Text
