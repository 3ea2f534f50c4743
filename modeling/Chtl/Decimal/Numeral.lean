import Chtl.Decimal.Read

/-!
# Numerals

Signed and unsigned whole numbers of 64 bits, and floating-point numerals with a sign, a point and
an exponent. A text is a numeral only as a whole.
-/

set_option autoImplicit false
set_option linter.all false

namespace Chtl.Decimal

open Text

/-- The value of a nonempty row of digits. -/
def digits? (cs : List Char) : Option Nat :=
  if !cs.isEmpty && cs.all isAsciiDigit then some (natural cs) else none

/-- An unsigned number of 64 bits, with an optional plus sign. -/
def unsigned? (cs : List Char) : Option Nat :=
  let body := match cs with
    | '+' :: rest => rest
    | _ => cs
  (digits? body).filter (· < Nat.pow 2 64)

/-- A signed number of 64 bits, with an optional sign. -/
def signed? (cs : List Char) : Option Int :=
  match cs with
  | '-' :: rest => ((digits? rest).filter (· ≤ Nat.pow 2 63)).map fun n => -(n : Int)
  | '+' :: rest => ((digits? rest).filter (· < Nat.pow 2 63)).map fun n => (n : Int)
  | _ => ((digits? cs).filter (· < Nat.pow 2 63)).map fun n => (n : Int)

/-- The double nearest to `mantissa · 10 ^ exponent`. Exponents that leave the range of doubles are
not worked out. -/
def scaled (mantissa : Nat) (exponent : Int) : Float :=
  let magnitude := ((Nat.toDigits 10 mantissa).length : Int) + exponent
  if mantissa = 0 ∨ magnitude < -330 then 0
  else if 320 < magnitude then 1 / 0
  else if exponent < 0 then Float.ofScientific mantissa true (-exponent).toNat
  else Float.ofScientific mantissa false exponent.toNat

/-- The exponent behind a mantissa, if what stands there is one or nothing at all. -/
def exponent? : List Char → Option Int
  | [] => some 0
  | c :: cs =>
    if c = 'e' ∨ c = 'E' then
      match cs with
      | '-' :: rest => (digits? rest).map fun n => -(n : Int)
      | '+' :: rest => (digits? rest).map fun n => (n : Int)
      | _ => (digits? cs).map fun n => (n : Int)
    else none

/-- A floating-point numeral without a sign. -/
def unsignedFloat? (cs : List Char) : Option Float :=
  let lower := cs.map Char.toLower
  if lower = "inf".toList ∨ lower = "infinity".toList then some (1 / 0)
  else if lower = "nan".toList then some (0 / 0)
  else
    let whole := cs.takeWhile isAsciiDigit
    let (fraction, rest) :=
      match cs.drop whole.length with
      | '.' :: more => (more.takeWhile isAsciiDigit, more.dropWhile isAsciiDigit)
      | more => ([], more)
    if whole.isEmpty && fraction.isEmpty then none
    else
      (exponent? rest).map fun e => scaled (natural (whole ++ fraction)) (e - fraction.length)

/-- A floating-point numeral. -/
def float? (cs : List Char) : Option Float :=
  match cs with
  | '-' :: rest => (unsignedFloat? rest).map fun x => -x
  | '+' :: rest => unsignedFloat? rest
  | _ => unsignedFloat? cs

end Chtl.Decimal
