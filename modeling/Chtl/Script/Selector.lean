import Chtl.Decimal.Numeral
import Chtl.Script.Basic
import Chtl.Text.Basic

/-!
# Selectors in double braces
-/

set_option autoImplicit false
set_option linter.all false

namespace Chtl.Script

open Text

/-- Names that a bare selector takes for tags. -/
def knownTags : List String :=
  ["a", "article", "aside", "audio", "body", "button", "canvas", "code", "dialog", "div", "footer",
    "form", "h1", "h2", "h3", "h4", "h5", "h6", "header", "img", "input", "label", "li", "main",
    "nav", "ol", "option", "p", "pre", "section", "select", "span", "strong", "table", "tbody",
    "td", "textarea", "th", "thead", "tr", "ul", "video"]

def isPlainName (cs : List Char) : Bool :=
  !cs.isEmpty && cs.all isNameChar

/-- The text before and the number in an index at the end. -/
def index? (cs : List Char) : Option (List Char × Nat) :=
  match cs.reverse with
  | ']' :: back =>
    let inner := back.takeWhile (· != '[')
    match back.drop inner.length with
    | '[' :: base => (Decimal.unsigned? (trim inner.reverse)).map fun n => (base.reverse, n)
    | _ => none
  | _ => none

/-- A selector without an index. -/
def simpleTarget (cs : List Char) : Target :=
  let text := String.ofList cs
  match cs with
  | '#' :: name => if isPlainName name then .id (String.ofList name) else .query text
  | '.' :: name => if isPlainName name then .cls (String.ofList name) else .query text
  | _ =>
    if isPlainName cs then if knownTags.contains text then .tag text else .auto text
    else .query text

/-- What a selector names; an index leaves a shorter text, so the length bounds their number. -/
def targetWithin : (limit : Nat) → List Char → Target
  | 0, cs => simpleTarget cs
  | limit + 1, cs =>
    if cs = ['&'] then .own
    else
      match index? cs with
      | some (base, n) => .indexed (targetWithin limit (trim base)) n
      | none => simpleTarget cs

def Target.ofText (cs : List Char) : Target := targetWithin (cs.length + 1) cs

/-- Reads the selector at the front of a text that starts at `offset`, with its length. -/
def selectorAt (offset : Nat) (cs : List Char) : Except ScriptError (Selector × Nat) :=
  match find? ['}', '}'] (cs.drop 2) with
  | none => .error (.unterminatedSelector ⟨offset, offset + size cs⟩)
  | some n =>
    let span : Span := ⟨offset, offset + size (cs.take (n + 4))⟩
    let inner := trim ((cs.drop 2).take n)
    if inner.isEmpty then .error (.emptySelector span)
    else .ok (⟨Target.ofText inner, span⟩, n + 4)

end Chtl.Script
