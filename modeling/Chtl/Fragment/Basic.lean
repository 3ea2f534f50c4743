import Chtl.Source.Span
import Chtl.Text.Basic

/-!
# Fragments and placeholders

A unit is cut into fragments: markup, and the interiors of style and script blocks. Every block
leaves a placeholder in the markup, so that what it is compiled to can be put back in its place.
-/

set_option autoImplicit false
set_option linter.all false

namespace Chtl

inductive FragmentKind where
  | markup
  | style
  | script
  deriving DecidableEq, Repr, Inhabited

namespace FragmentKind

/-- The word for the kind inside a placeholder. -/
def tokenTag : FragmentKind → String
  | markup => "CHTL"
  | style => "STYLE"
  | script => "SCRIPT"

/-- The word for the kind in messages. -/
def word : FragmentKind → String
  | markup => "markup"
  | style => "style"
  | script => "script"

end FragmentKind

/-- The mark that stands in the markup for a block that was cut out. -/
structure Placeholder where
  token : String
  deriving DecidableEq, Repr, Inhabited

/-- The nonce belongs to the unit and the ordinal to the block within it, so no two blocks of one
unit share a placeholder. -/
def Placeholder.ofBlock (kind : FragmentKind) (nonce : String) (ordinal : Nat) : Placeholder :=
  ⟨"__CHTL_" ++ kind.tokenTag ++ "_" ++ nonce ++ "_" ++ toString ordinal ++ "__"⟩

structure Fragment where
  kind : FragmentKind
  /-- Markup, or the interior of a block without its braces. -/
  text : String
  /-- The whole extent in the source, keyword and braces of a block included. -/
  range : Span
  /-- The extent of `text` in the source. -/
  bodyRange : Span
  /-- What stands for the fragment in the markup, if it is a block. -/
  placeholder : Option Placeholder
  deriving DecidableEq, Repr

/-- What the fragment leaves in the markup: itself, or its placeholder. -/
def Fragment.image (f : Fragment) : List Char :=
  match f.placeholder with
  | some p => p.token.toList
  | none => f.text.toList

theorem Fragment.image_of_some {f : Fragment} {p : Placeholder} (h : f.placeholder = some p) :
    f.image = p.token.toList := by
  rw [image, h]

theorem Fragment.image_of_none {f : Fragment} (h : f.placeholder = none) :
    f.image = f.text.toList := by
  rw [image, h]

/-- The size of the image. -/
def Fragment.imageSize (f : Fragment) : Nat :=
  match f.placeholder with
  | some p => p.token.utf8ByteSize
  | none => f.text.utf8ByteSize

theorem Fragment.size_image (f : Fragment) : Text.size f.image = f.imageSize := by
  unfold image imageSize
  split <;> exact Text.size_toList _

end Chtl
