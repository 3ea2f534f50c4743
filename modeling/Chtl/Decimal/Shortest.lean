/-!
# The shortest decimal of a double

A finite double stands for every real that rounds to it. Among the decimals in that interval the
one with the fewest digits is chosen, of two such the nearer, and of two equally near the greater.
All comparisons are between natural numbers.
-/

set_option autoImplicit false
set_option linter.all false

namespace Chtl.Decimal

/-- A positive value `numerator / denominator` with the interval of what rounds to it, all three
numerators over one denominator. -/
structure Target where
  value : Nat
  low : Nat
  high : Nat
  denominator : Nat
  /-- Whether the ends of the interval round to the value too. -/
  closed : Bool
  deriving DecidableEq, Repr

/-- The double `significand · 2 ^ exponent`; below a power of two the gap is half as wide. -/
def Target.ofBinary (significand : Nat) (exponent : Int) (narrow : Bool) : Target :=
  let shift := exponent - 2
  let unit := Nat.pow 2 shift.toNat
  ⟨4 * significand * unit, (4 * significand - if narrow then 1 else 2) * unit,
    (4 * significand + 2) * unit, Nat.pow 2 (-shift).toNat, significand % 2 == 0⟩

/-- A decimal `digits · 10 ^ exponent`. -/
structure Digits where
  digits : Nat
  exponent : Int
  deriving DecidableEq, Repr

/-- Compares the decimal with `numerator / denominator` by common multiples. -/
def Digits.scaled (d : Digits) (numerator denominator : Nat) : Nat × Nat :=
  (d.digits * Nat.pow 10 d.exponent.toNat * denominator,
    numerator * Nat.pow 10 (-d.exponent).toNat)

/-- Whether a decimal rounds to the target. -/
def Target.admits (t : Target) (d : Digits) : Bool :=
  let (x, low) := d.scaled t.low t.denominator
  let (y, high) := d.scaled t.high t.denominator
  if t.closed then decide (low ≤ x) && decide (y ≤ high) else decide (low < x) && decide (y < high)

/-- The greatest multiple of `10 ^ exponent` that is not above the target. -/
def Target.floor (t : Target) (exponent : Int) : Digits :=
  ⟨t.value * Nat.pow 10 (-exponent).toNat / (t.denominator * Nat.pow 10 exponent.toNat), exponent⟩

/-- The best decimal on the grids from `10 ^ exponent` down, the coarsest grid first. -/
def Target.select (t : Target) : (grids : Nat) → (exponent : Int) → Digits
  | 0, exponent => t.floor exponent
  | n + 1, exponent =>
    let below := t.floor exponent
    let above : Digits := ⟨below.digits + 1, exponent⟩
    match t.admits below, t.admits above with
    | true, false => below
    | false, true => above
    | true, true =>
      let middle : Digits := ⟨2 * below.digits + 1, exponent⟩
      let (x, v) := middle.scaled (2 * t.value) t.denominator
      if v < x then below else above
    | false, false => t.select n (exponent - 1)

/-- One more than the exponent of the target's leading digit. -/
def Target.magnitude (t : Target) : Int :=
  let scaled := t.value * Nat.pow 10 330 / t.denominator
  ((Nat.toDigits 10 scaled).length : Int) - 330

/-- Eighteen grids always suffice for a double. -/
def Target.shortest (t : Target) : Digits :=
  t.select 18 t.magnitude

/-- A decimal in positional notation, without an exponent and without idle zeros. -/
def Digits.positional (d : Digits) : List Char :=
  let ds := Nat.toDigits 10 d.digits
  if 0 ≤ d.exponent then ds ++ List.replicate d.exponent.toNat '0'
  else
    let places := (-d.exponent).toNat
    if places < ds.length then
      ds.take (ds.length - places) ++ '.' :: ds.drop (ds.length - places)
    else '0' :: '.' :: List.replicate (places - ds.length) '0' ++ ds

/-- The text of a double: the fewest digits that read back, in positional notation. Zero keeps its
sign. -/
def text (x : Float) : String :=
  let bits : Nat := x.toBits.toNat
  let fraction : Nat := bits % Nat.pow 2 52
  let biased : Nat := bits / Nat.pow 2 52 % 2048
  let sign := if bits / Nat.pow 2 63 = 1 then "-" else ""
  if biased = 2047 then if fraction = 0 then sign ++ "inf" else "NaN"
  else if biased = 0 ∧ fraction = 0 then sign ++ "0"
  else
    let target :=
      if biased = 0 then Target.ofBinary fraction (-1074) false
      else
        Target.ofBinary (Nat.pow 2 52 + fraction) ((biased : Int) - 1075)
          (fraction == 0 && biased != 1)
    sign ++ String.ofList target.shortest.positional

end Chtl.Decimal
