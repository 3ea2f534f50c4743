import Chtl.Document.Element
import Chtl.Markup.Reader
import Chtl.Markup.Value

/-!
# Style bodies

A style body is a sequence of declarations, uses of style templates and, in the style block of an
element, rules with selectors.
-/

set_option autoImplicit false
set_option linter.all false

namespace Chtl.Markup

open Text Reader

/-- Replaces the variables of a value that takes up `span`. -/
def expandedValue (cs : List Char) (span : Span) : Reader (List Char) := do
  match expandVariables (← get).templates cs with
  | .ok text => return text
  | .error (group, key) => fail (.unknownTemplate .group (group ++ "(" ++ key ++ ")") span)

/-- Builds the declaration of a key with a raw value. The item starts at `start` and ends at the
cursor; in a conditional the value has to be static. -/
def declaration (key raw : List Char) (rawStart start : Nat) (conditional : Bool) :
    Reader StyleDeclaration := do
  let (text, textStart) := trimAt raw rawStart
  let span ← spanOf textStart (textStart + size text)
  if !(key.head?.any fun c => isNameStart c || c == '-') then
    fail (.unexpectedToken .propertyName (String.ofList key) (← spanOf start textStart))
  else if text.isEmpty then
    fail (.unexpectedToken .propertyValue (String.ofList ((← rest).take 1)) span)
  else
    let text ← expandedValue text span
    let value := styleValue text span.start
    if conditional && value.isResponsive then
      fail (.unexpectedToken .staticValue (String.ofList text) span)
    else return ⟨String.ofList key, value, ← spanFrom start⟩

/-- Reads `@Style Name;` or `inherit @Style Name;` and sets the declarations of the template. -/
def styleUse (owner : Element) : Reader Element := do
  let start ← offset
  if ← keyword "inherit" then skipTrivia
  expect '@' .styleUse
  if !(← keyword "Style") then unexpected .styleUse
  skipTrivia
  let name ← takeName .templateName
  skipTrivia
  let _ ← eat ';'
  match (← get).templates.style? name with
  | some declarations => return declarations.foldl Element.setDeclaration owner
  | none => fail (.unknownTemplate .style name (← spanFrom start))

/-- Reads a rule with its selector and body. -/
def styleRule (owner : Element) (allowed : Bool) : Reader Element := do
  let start ← offset
  let (raw, rawStart) ← takeRaw ['{']
  let (selector, selectorStart) := trimAt raw rawStart
  if !allowed then
    fail (.unexpectedToken .declaration (String.ofList selector)
      (← spanOf selectorStart (selectorStart + size selector)))
  else
    expect '{' .openBrace
    let body ← takeBalanced
    return owner.addRule ⟨String.ofList selector, String.ofList (trim body), ← spanFrom start⟩

/-- Reads one declaration. -/
def styleDeclaration (owner : Element) : Reader Element := do
  let start ← offset
  let (rawKey, rawKeyStart) ← takeRaw [':', ';', '}']
  let (key, keyStart) := trimAt rawKey rawKeyStart
  if ← eat ':' then
    let (raw, rawStart) ← takeRaw [';', '}']
    let _ ← eat ';'
    return owner.setDeclaration (← declaration key raw rawStart start false)
  else
    fail (.unexpectedToken .colonAfterProperty (String.ofList key)
      (← spanOf keyStart (keyStart + size key)))

/-- Reads one item of a style body. -/
def styleItem (owner : Element) (rules : Bool) : Reader Element := do
  let here ← cursor
  if here.peek? = some '@' || startsWith here.rest "inherit ".toList ||
      startsWith here.rest "inherit@".toList then
    styleUse owner
  else
    let ahead := here.rest.drop (rawLength ['{', ';', '}'] here.before 0 here.rest)
    if ahead.head? = some '{' then styleRule owner rules else styleDeclaration owner

/-- Reads the items of a style body, at most `limit` of them. A closed body ends at its brace, an
open one at the end of the text. -/
def styleItems (rules closed : Bool) : (limit : Nat) → Element → Reader Element
  | 0, owner => return owner
  | limit + 1, owner => do
    skipTrivia
    let ended ← if closed then eat '}' else atEnd
    if ended then return owner
    else if ← atEnd then unexpected .closeBrace
    else styleItems rules closed limit (← styleItem owner rules)

/-- Reads a style body. Every item takes at least one character. -/
def styleBody (owner : Element) (rules closed : Bool) : Reader Element := do
  styleItems rules closed ((← rest).length + 1) owner

end Chtl.Markup
