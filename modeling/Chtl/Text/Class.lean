import Chtl.Text.Alphanumeric
import Chtl.Text.DecimalDigit
import Chtl.Text.Hidden
import Chtl.Text.WordChar

/-!
# Classes of characters

Two families are kept apart because the language treats them differently: the ASCII classes, which
decide where keywords, units and names begin, and the Unicode classes, which decide what is blank
and what continues a word. The shapes that make a text an expression or a placeholder go by the
decimal digits and word characters of version 16 of Unicode, the other classes by version 17.
-/

set_option autoImplicit false
set_option linter.all false

namespace Chtl.Text

/-- The blank characters of Unicode: the 25 code points with the property White_Space. -/
def isBlank (c : Char) : Bool :=
  let n := c.toNat
  (decide (9 ≤ n) && decide (n ≤ 13)) || n == 32 || n == 0x85 || n == 0xa0 || n == 0x1680 ||
    (decide (0x2000 ≤ n) && decide (n ≤ 0x200a)) || n == 0x2028 || n == 0x2029 || n == 0x202f ||
    n == 0x205f || n == 0x3000

/-- The blank characters of ASCII. The vertical tab is not one of them. -/
def isAsciiBlank (c : Char) : Bool :=
  c == ' ' || c == '\t' || c == '\n' || c == '\x0c' || c == '\r'

def isAsciiDigit (c : Char) : Bool :=
  decide ('0' ≤ c) && decide (c ≤ '9')

def isAsciiUpper (c : Char) : Bool :=
  decide ('A' ≤ c) && decide (c ≤ 'Z')

def isAsciiLower (c : Char) : Bool :=
  decide ('a' ≤ c) && decide (c ≤ 'z')

def isAsciiLetter (c : Char) : Bool :=
  isAsciiUpper c || isAsciiLower c

def isAsciiAlnum (c : Char) : Bool :=
  isAsciiLetter c || isAsciiDigit c

/-- A letter, or a number of any kind, in any script. -/
def isAlphanumeric (c : Char) : Bool :=
  if c.toNat < 128 then isAsciiAlnum c else alphanumericRanges.mem c.toNat

/-- A decimal digit of any script. -/
def isDecimalDigit (c : Char) : Bool :=
  if c.toNat < 128 then isAsciiDigit c else decimalDigitRanges.mem c.toNat

/-- A character that continues a word: letter, mark, decimal digit or connector. -/
def isWordChar (c : Char) : Bool :=
  if c.toNat < 128 then isAsciiAlnum c || c == '_' else wordRanges.mem c.toNat

/-- A character that a quoted rendering spells by number. -/
def isHidden (c : Char) : Bool :=
  if c.toNat < 128 then decide (c.toNat < 32) || c.toNat == 127 else hiddenRanges.mem c.toNat

/-- The first character of a name. -/
def isNameStart (c : Char) : Bool :=
  isAsciiLetter c || c == '_'

/-- A later character of a name. -/
def isNameChar (c : Char) : Bool :=
  isAsciiAlnum c || c == '_' || c == '-'

end Chtl.Text
