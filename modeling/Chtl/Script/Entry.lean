import Chtl.Script.Lexical
import Chtl.Script.Selector

/-!
# Entries of blocks

The body of a block is a list of entries `key: value`. This module reads the entries and those of
their values that hold no code: lists of selectors, style frames and keyframes.
-/

set_option autoImplicit false
set_option linter.all false

namespace Chtl.Script

open Text

structure Entry where
  key : String
  value : List Char
  valueStart : Nat
  span : Span
  deriving DecidableEq, Repr

/-- Drops quotes from both ends. -/
def stripQuotes (cs : List Char) : List Char :=
  let isQuote (c : Char) : Bool := c == '"' || c == '\x27'
  ((cs.dropWhile isQuote).reverse.dropWhile isQuote).reverse

/-- Reads one part of a body. -/
def entryAt (construct : Construct) (start : Nat) (part : List Char) : Except ScriptError Entry :=
  let span : Span := ⟨start, start + size part⟩
  match splitTopLevel ':' 0 part with
  | key :: _ :: _ =>
    let raw := part.drop (key.length + 1)
    .ok ⟨String.ofList (stripQuotes (trim key)), trim raw,
      start + size key + 1 + size (raw.takeWhile isBlank), span⟩
  | _ => .error (.malformedBlock construct (.entryWithoutColon (String.ofList (trim part))) span)

/-- Reads the entries of a body that starts at `offset`. Blank parts are passed over. -/
def entries (construct : Construct) (offset : Nat) (body : List Char) :
    Except ScriptError (List Entry) :=
  ((partsAt ',' offset body).filter fun p => !(p.2.all isBlank)).mapM fun (start, part) =>
    entryAt construct start part

/-- The text between two characters at its ends. -/
def between? (left right : Char) : List Char → Option (List Char)
  | c :: rest => if c = left ∧ rest.getLast? = some right then some rest.dropLast else none
  | [] => none

/-- A part without blanks around it, with the offset where it then starts. -/
def trimmed (part : Nat × List Char) : Nat × List Char :=
  (part.1 + size (part.2.takeWhile isBlank), trim part.2)

/-- The parts of a list that are not blank. -/
def listItems (offset : Nat) (cs : List Char) : List (Nat × List Char) :=
  ((partsAt ',' offset cs).filter fun p => !(p.2.all isBlank)).map trimmed

/-- Reads an item of a list of selectors. -/
def listedSelector (construct : Construct) (start : Nat) (item : List Char) :
    Except ScriptError Selector :=
  let malformed : Except ScriptError Selector :=
    .error (.malformedBlock construct (.listedNotSelector (String.ofList item))
      ⟨start, start + size item⟩)
  if startsWith item ['{', '{'] then
    match selectorAt start item with
    | .error e => .error e
    | .ok (s, n) => if n = item.length then .ok s else malformed
  else malformed

/-- Reads one selector, or several between brackets. -/
def selectorList (construct : Construct) (e : Entry) : Except ScriptError (List Selector) :=
  let (list, offset) :=
    match between? '[' ']' e.value with
    | some inner => (inner, e.valueStart + 1)
    | none => (e.value, e.valueStart)
  (listItems offset list).mapM fun (start, item) => listedSelector construct start item

/-- Upper-case letters become a hyphen and the lower-case letter. -/
def kebabCase (name : String) : String :=
  String.ofList (name.toList.flatMap fun c => if isAsciiUpper c then ['-', c.toLower] else [c])

/-- The entries of `{ key: value, … }`. -/
def objectEntries (text : List Char) (start : Nat) (span : Span) :
    Except ScriptError (List Entry) :=
  match between? '{' '}' text with
  | some inner => entries .animate (start + 1) inner
  | none => .error (.malformedBlock .animate (.notAFrame (String.ofList text)) span)

def property (e : Entry) : String × String := (kebabCase e.key, String.ofList e.value)

def frame (e : Entry) : Except ScriptError Frame :=
  (objectEntries e.value e.valueStart e.span).map (·.map property)

/-- Whether a text is a numeral between zero and one. -/
def isProgress (cs : List Char) : Bool :=
  match Decimal.float? cs with
  | some x => x >= 0 && x <= 1
  | none => false

/-- Reads a keyframe. The last `at` counts. -/
def keyframe (start : Nat) (item : List Char) : Except ScriptError Keyframe :=
  let span : Span := ⟨start, start + size item⟩
  match objectEntries item start span with
  | .error e => .error e
  | .ok es =>
    match (es.filter (·.key == "at")).getLast? with
    | some e =>
      if isProgress e.value then
        .ok ⟨String.ofList e.value, (es.filter (·.key != "at")).map property⟩
      else .error (.malformedBlock .animate .badProgress span)
    | none => .error (.malformedBlock .animate .badProgress span)

def keyframes (e : Entry) : Except ScriptError (List Keyframe) :=
  match between? '[' ']' e.value with
  | some list => (listItems (e.valueStart + 1) list).mapM fun (start, item) => keyframe start item
  | none => .error (.malformedBlock .animate .notKeyframes e.span)

/-- A duration in milliseconds. -/
def milliseconds? (cs : List Char) : Option Nat :=
  let number := if endsWith cs ['m', 's'] then cs.take (cs.length - 2) else cs
  Decimal.unsigned? (trim number)

/-- How often an animation runs: at least once, or minus one. -/
def loops? (cs : List Char) : Option Int :=
  (Decimal.signed? cs).filter fun n => n == -1 || decide (1 ≤ n)

end Chtl.Script
