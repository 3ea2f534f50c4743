/-!
# Escaping in pages

Text and attribute values are written with entities in place of the characters that would end them.
-/

set_option autoImplicit false
set_option linter.all false

namespace Chtl.Html

/-- How one character of a text is written. -/
def textEntity (c : Char) : List Char :=
  if c = '&' then "&amp;".toList
  else if c = '<' then "&lt;".toList
  else if c = '>' then "&gt;".toList
  else [c]

/-- How one character of an attribute value is written. -/
def attributeEntity (c : Char) : List Char :=
  if c = '"' then "&quot;".toList else textEntity c

def escapeText (s : String) : String :=
  String.ofList (s.toList.flatMap textEntity)

def escapeAttribute (s : String) : String :=
  String.ofList (s.toList.flatMap attributeEntity)

/-- Puts a blank into every pair of hyphens, from left to right. -/
def partHyphens : List Char → List Char
  | '-' :: '-' :: cs => '-' :: ' ' :: '-' :: partHyphens cs
  | c :: cs => c :: partHyphens cs
  | [] => []

/-- One attribute of a start tag, with the blank before it. -/
def attributeText (name value : String) : String :=
  " " ++ name ++ "=\"" ++ escapeAttribute value ++ "\""

end Chtl.Html
