import Chtl.Document.Traversal

/-!
# Generated ids

Elements that the page's code has to find get an id when the author gave them none. A generated id
is a stem and a number, and never one that the document uses already.
-/

set_option autoImplicit false
set_option linter.all false

namespace Chtl.Html

/-- What ids are generated for. -/
inductive IdStem where
  | element
  | rendering
  deriving DecidableEq, Repr

def IdStem.text : IdStem → String
  | element => "chtl-el"
  | rendering => "chtl-render"

/-- The ids in use, and the next number for each stem. -/
structure IdPool where
  taken : List String := []
  nextElement : Nat := 0
  nextRendering : Nat := 0
  deriving DecidableEq, Repr

namespace IdPool

/-- The ids that the author wrote anywhere in the document. -/
def ofDocument (d : Document) : IdPool :=
  { taken := d.elements.filterMap Element.id? }

def idText (stem : IdStem) (n : Nat) : String :=
  stem.text ++ "-" ++ toString n

/-- The first number from `n` on whose id is free. One of `tries` numbers in a row is free if fewer
ids than that are taken. -/
def firstFree (stem : IdStem) (taken : List String) : (tries n : Nat) → Nat
  | 0, n => n
  | tries + 1, n =>
    if taken.contains (idText stem n) then firstFree stem taken tries (n + 1) else n

/-- A fresh id. -/
def allocate (p : IdPool) (stem : IdStem) : String × IdPool :=
  let start := match stem with
    | .element => p.nextElement
    | .rendering => p.nextRendering
  let n := firstFree stem p.taken p.taken.length start
  let id := idText stem n
  (id, match stem with
    | .element => { p with taken := id :: p.taken, nextElement := n + 1 }
    | .rendering => { p with taken := id :: p.taken, nextRendering := n + 1 })

end IdPool

/-- Whether the page's code or a rule has to find the element by its id. -/
def needsId (e : Element) : Bool :=
  e.attributes.any (fun a => a.value.literal?.isNone) ||
    e.style.any (·.value.isResponsive) ||
    e.chains.any Chain.isDynamic ||
    e.children.any isScript ||
    (e.rules.any (fun r => r.selector.toList.contains '&') && e.classes.isEmpty)
where
  isScript : Node → Bool
    | .placeholder _ kind _ => kind == .script
    | _ => false

end Chtl.Html
