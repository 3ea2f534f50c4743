import Chtl.Html.Generate
import Chtl.Proofs.Static.Literal

/-!
# Static pages

A static page is a forest of texts and elements. It has a source, in which all texts and values are
literals, and a page that it stands for. Names that the language gives another meaning are not among
the tags and attributes of a forest.
-/

set_option autoImplicit false
set_option linter.all false

namespace Chtl.Static

open Text

/-- A letter or an underscore, then letters, digits, underscores and hyphens. -/
def isName : List Char → Bool
  | [] => false
  | c :: cs => isNameStart c && cs.all isNameChar

structure Tag where
  name : String
  isName : isName name.toList = true
  notKeyword : name ∉ ["text", "if", "else", "style", "script"]

/-- Attributes in their order, each with its value. -/
structure Attributes where
  entries : List (String × String)
  isName : ∀ a ∈ entries, isName a.1.toList = true
  notKeyword : ∀ a ∈ entries, a.1 ∉ ["text", "style"]
  distinct : (entries.map (·.1)).Nodup

inductive Forest where
  | nil
  | text (value : String) (rest : Forest)
  | element (tag : Tag) (attributes : Attributes) (children rest : Forest)

/-- `name: "value";` -/
def attributeSource (a : String × String) : List Char :=
  a.1.toList ++ (':' :: ' ' :: (quoted a.2 ++ [';']))

/-- `text { "value" }` -/
def textSource (value : String) : List Char :=
  "text".toList ++ (' ' :: '{' :: ' ' :: (quoted value ++ [' ', '}']))

/-- Items behind one blank each. -/
def spaced (items : List (List Char)) : List Char := items.flatMap (' ' :: ·)

/-- `tag { item item }` -/
def elementSource (tag : String) (items : List (List Char)) : List Char :=
  tag.toList ++ (' ' :: '{' :: (spaced items ++ [' ', '}']))

namespace Forest

def isEmpty : Forest → Bool
  | nil => true
  | _ => false

/-- The sources of the nodes. -/
def items : Forest → List (List Char)
  | nil => []
  | text value rest => textSource value :: rest.items
  | element tag attributes children rest =>
    elementSource tag.name (attributes.entries.map attributeSource ++ children.items) :: rest.items

/-- The nodes with a blank between each two. -/
def source (f : Forest) : List Char := List.intercalate [' '] f.items

/-- The page. A void element without children has no end tag. -/
def html : Forest → String
  | nil => ""
  | text value rest => Html.escapeText value ++ rest.html
  | element tag attributes children rest =>
    "<" ++ tag.name ++ String.join (attributes.entries.map fun a => Html.attributeText a.1 a.2) ++
      ">" ++
      (if Html.voidTags.contains tag.name && children.isEmpty then ""
        else children.html ++ "</" ++ tag.name ++ ">") ++
      rest.html

end Forest

end Chtl.Static
