import Chtl.Text.Class

/-!
# Reading decimals

A decimal without sign and exponent is read as the nearest double.
-/

set_option autoImplicit false
set_option linter.all false

namespace Chtl.Decimal

/-- The natural number that ASCII digits spell. -/
def natural (digits : List Char) : Nat :=
  digits.foldl (fun n c => 10 * n + (c.toNat - 48)) 0

/-- The double nearest to the decimal with these digits before and after the point. -/
def nearest (whole fraction : List Char) : Float :=
  Float.ofScientific (natural (whole ++ fraction)) true fraction.length

/-- The parts of a decimal at the front of a text, and how many characters it takes up: digits, or
digits with a point between them, or a point and digits. -/
def split (cs : List Char) : List Char × List Char × Nat :=
  let whole := cs.takeWhile Text.isAsciiDigit
  match cs.drop whole.length with
  | '.' :: rest =>
    let fraction := rest.takeWhile Text.isAsciiDigit
    if fraction.isEmpty then (whole, [], whole.length)
    else (whole, fraction, whole.length + 1 + fraction.length)
  | _ => (whole, [], whole.length)

end Chtl.Decimal
