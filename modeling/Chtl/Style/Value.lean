import Chtl.Decimal.Read
import Chtl.Decimal.Shortest
import Chtl.Json.Quote
import Chtl.Text.Basic

/-!
# Values

A property has a number with a unit, a text or a truth value. Values are read from style text and
are written as style text and as literals for the page's code.
-/

set_option autoImplicit false
set_option linter.all false

namespace Chtl

open Text

inductive Value where
  | number (value : Float) (unit : String)
  | str (value : String)
  | bool (value : Bool)
  deriving Repr

inductive ValueType where
  | number
  | str
  | bool
  deriving DecidableEq, Repr

def ValueType.word : ValueType → String
  | number => "number"
  | str => "string"
  | bool => "boolean"

/-- A number as it is written out: the fewest digits that read back, and no sign on zero. -/
def numberText (x : Float) : String :=
  if x == 0 then "0" else Decimal.text x

def boolText (b : Bool) : String :=
  if b then "true" else "false"

namespace Value

def type : Value → ValueType
  | number _ _ => .number
  | str _ => .str
  | bool _ => .bool

/-- The text between two equal quotes, if that is all there is. -/
def unquote? (quote : Char) : List Char → Option (List Char)
  | c :: rest =>
    if c = quote ∧ rest.getLast? = some quote then some rest.dropLast else none
  | [] => none

/-- A number with an optional sign and unit, if the text is nothing else. -/
def number? (cs : List Char) : Option (Float × List Char) :=
  let negative := cs.head? = some '-'
  let body := if negative then cs.drop 1 else cs
  let (whole, fraction, n) := Decimal.split body
  if n = 0 then none
  else
    let unit := body.drop n
    if unit = ['%'] ∨ unit.all isAsciiLetter then
      let magnitude := Decimal.nearest whole fraction
      some (if negative then -magnitude else magnitude, unit)
    else none

/-- The value that a piece of style text denotes. -/
def ofCss (text : String) : Value :=
  let cs := trim text.toList
  match number? cs with
  | some (value, unit) => number value (String.ofList unit)
  | none =>
    if cs = "true".toList then bool true
    else if cs = "false".toList then bool false
    else
      str (String.ofList (((unquote? '"' cs).or (unquote? '\x27' cs)).getD cs))

def toCss : Value → String
  | number value unit => numberText value ++ unit
  | str value => value
  | bool value => boolText value

/-- The literal for the page's code. Units are dropped. -/
def toJs : Value → String
  | number value _ => numberText value
  | str value => Json.quote value
  | bool value => boolText value

end Value

end Chtl
