import Chtl.Output.Fragments
import Chtl.Output.Token

/-!
# Merging

The placeholders of the generated markup are checked against the compiled fragments and erased.
Styles and scripts go into channels of their own, which a page may also hold inline.
-/

set_option autoImplicit false
set_option linter.all false

namespace Chtl

open Text

/-- How the channels are laid out. -/
structure Layout where
  /-- One page that holds its style and script itself. -/
  inlineHtml : Bool := false
  /-- The inline style stands in a head. -/
  defaultStruct : Bool := false
  deriving DecidableEq, Repr

/-- Texts that go before the fragments in their channels. -/
structure Preludes where
  css : String := ""
  js : String := ""
  deriving DecidableEq, Repr

structure Bundle where
  html : String
  css : String
  js : String
  deriving DecidableEq, Repr

namespace Output

/-- Checks placeholders in their order, those in `seen` having been met before. -/
def checkTokens (outputs : FragmentOutputs) (seen : List String) :
    List String → Except PlacementError Unit
  | [] => .ok ()
  | token :: rest =>
    if (outputs.get? token).isNone then .error (.dangling token)
    else if seen.contains token then .error (.duplicate token)
    else checkTokens outputs (token :: seen) rest

/-- The pieces of a channel, trimmed, on lines of their own. Blank ones are left out. -/
def joinChannel (pieces : List String) : String :=
  let trimmed := pieces.map fun piece => String.ofList (trim piece.toList)
  String.intercalate "\n" (trimmed.filter fun piece => piece != "")

/-- A channel between tags, or nothing if it is empty. -/
def channelTag (tag channel : String) : String :=
  if channel = "" then "" else "<" ++ tag ++ ">" ++ channel ++ "</" ++ tag ++ ">"

/-- One page with its channels inside. -/
def inlinePage (layout : Layout) (body css js : String) : String :=
  let style := channelTag "style" css
  "<html>" ++ (if layout.defaultStruct then "<head>" ++ style ++ "</head>" else style) ++ body ++
    channelTag "script" js ++ "</html>"

/-- Resolves the placeholders of the markup and lays out the page. -/
def merge (markup : String) (outputs : FragmentOutputs) (preludes : Preludes) (layout : Layout) :
    Except PlacementError Bundle :=
  let cs := markup.toList
  match checkTokens outputs [] ((tokens cs).map String.ofList) with
  | .error e => .error e
  | .ok () =>
    let body := String.ofList (mapTokens (fun _ => []) cs)
    let css := joinChannel (preludes.css :: outputs.textsOf .style)
    let js := joinChannel (preludes.js :: outputs.textsOf .script)
    if layout.inlineHtml then .ok ⟨inlinePage layout body css js, "", ""⟩ else .ok ⟨body, css, js⟩

end Output

end Chtl
