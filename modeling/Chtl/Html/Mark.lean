import Chtl.Html.Escape
import Chtl.Html.Ids
import Chtl.Style.Map

/-!
# The pieces of a page

A page is a sequence of marks: start and end tags, texts, comments and placeholders. The rules of an
element stand among them too, although they leave the page.
-/

set_option autoImplicit false
set_option linter.all false

namespace Chtl

/-- The text of a page, and the rules that leave the elements they were written in. -/
structure Page where
  html : String := ""
  css : String := ""
  deriving DecidableEq, Repr

namespace Html

/-- A start tag with its attributes in their order. -/
structure Tag where
  name : String
  attributes : List (String × String)
  deriving DecidableEq, Repr

def Tag.text (t : Tag) : String :=
  "<" ++ t.name ++ String.join (t.attributes.map fun a => attributeText a.1 a.2) ++ ">"

/-- The id that a page finds an element by. Of several attributes with one name the first counts. -/
def Tag.id? (t : Tag) : Option String := t.attributes.lookup "id"

def endTag (tag : String) : String := "</" ++ tag ++ ">"

/-- A literal attribute as it is written. The text of a `style` attribute joins the static style. -/
def writtenAttribute? (a : Attribute) : Option (String × String) :=
  match a.value.literal? with
  | some value => if a.name = "style" then none else some (a.name, value)
  | none => none

def ownStyleText (a : Attribute) : String :=
  match a.value.literal? with
  | some value => if a.name = "style" then value else ""
  | none => ""

/-- The start tag of an element, with a generated id if it has one. -/
def startTag (e : Element) (generated : Option String) (style : StyleMap) : Tag :=
  let styleText := style.styleText ++ String.join (e.attributes.map ownStyleText)
  ⟨e.tag, (generated.map fun id => ("id", id)).toList ++ e.attributes.filterMap writtenAttribute? ++
    if styleText = "" then [] else [("style", styleText)]⟩

/-- The start tag of the wrapper around the children of a branch, which the page's code shows. -/
def wrapperTag (id : String) : Tag := ⟨"div", [("id", id), ("style", "display: none;")]⟩

/-- A selector with `&` standing for the element: by its first class, else by its id. -/
def ownSelector (e : Element) (id : Option String) (selector : String) : String :=
  let own :=
    match e.classes.head?, id with
    | some name, _ => "." ++ name
    | none, some id => "#" ++ id
    | none, none => e.tag
  String.ofList (Text.replaceChar '&' own.toList selector.toList)

def ruleText (e : Element) (id : Option String) (r : StyleRule) : String :=
  ownSelector e id r.selector ++ " \x7b\n  " ++ r.body ++ "\n\x7d\n"

inductive Mark where
  /-- An element begins; it may have a generated id. -/
  | start (e : Element) (generated : Option String) (style : StyleMap)
  | wrapper (id : String)
  | stop (tag : String)
  | text (value : String)
  | comment (value : String)
  /-- A block that is compiled later; `parent` is the id of the element around it. -/
  | placeholder (p : Placeholder) (kind : FragmentKind) (parent : Option String)
  /-- The rules of an element that ends. -/
  | rules (e : Element) (id : Option String)

namespace Mark

/-- The start tag that is written. -/
def tag? : Mark → Option Tag
  | start e generated style => some (startTag e generated style)
  | wrapper id => some (wrapperTag id)
  | _ => none

def html : Mark → String
  | start e generated style => (startTag e generated style).text
  | wrapper id => (wrapperTag id).text
  | stop tag => endTag tag
  | text value => escapeText value
  | comment value => "<!-- " ++ String.ofList (partHyphens value.toList) ++ " -->"
  | placeholder p _ _ => p.token
  | rules _ _ => ""

def css : Mark → String
  | rules e id => String.join (e.rules.map (ruleText e id))
  | _ => ""

end Mark

end Html

def Page.ofMarks (marks : List Html.Mark) : Page :=
  ⟨String.join (marks.map Html.Mark.html), String.join (marks.map Html.Mark.css)⟩

end Chtl
