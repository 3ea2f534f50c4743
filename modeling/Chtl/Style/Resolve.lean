import Chtl.Document.Traversal
import Chtl.Style.Lower

/-!
# Resolving styles

The style of an element is what its declarations and the branches that fire give. A reference to
another element needs that element's style first. Resolved styles are remembered, and the elements
being resolved are kept on a path, so that a reference back into the path is found out.
-/

set_option autoImplicit false
set_option linter.all false

namespace Chtl

/-- The static style of an element, and for each of its chains the branch that fired. -/
structure ResolvedStyle where
  style : StyleMap := {}
  fired : List (Option Nat) := []
  deriving DecidableEq, Repr

/-- What resolving remembers. -/
structure Memo where
  resolved : List (Nat × ResolvedStyle) := []
  inProgress : List Nat := []
  deriving DecidableEq, Repr

section

variable {σ : Type}

/-- The text of a declared value. A responsive one has none before the page runs. -/
def StyleDeclaration.staticText (lookup : Lookup σ) (style : StyleMap) (d : StyleDeclaration) :
    Evaluation σ (Option String) :=
  match d.value with
  | .literal text => pure (some text)
  | .expr e => do
    let v ← e.eval style lookup
    pure (some v.toCss)
  | .responsive _ _ => pure none

/-- The style that declarations give, each evaluated against those before it. -/
def staticStyle (lookup : Lookup σ) : StyleMap → List StyleDeclaration → Evaluation σ StyleMap
  | style, [] => pure style
  | style, d :: ds => do
    match ← d.staticText lookup style with
    | some text => staticStyle lookup (style.set d.key text) ds
    | none => staticStyle lookup style ds

/-- A style under construction. New keys of branches go in front of the static ones, behind the
`front` keys that earlier branches put there. -/
structure Layers where
  style : StyleMap
  front : Nat := 0
  deriving DecidableEq, Repr

/-- A key that is there keeps its place. -/
def Layers.assign (l : Layers) (key text : String) : Layers :=
  if l.style.contains key then { l with style := l.style.set key text }
  else ⟨l.style.insertAt l.front key text, l.front + 1⟩

/-- Applies the body of a branch that fired. -/
def applyBody (lookup : Lookup σ) : Layers → List StyleDeclaration → Evaluation σ Layers
  | layers, [] => pure layers
  | layers, d :: ds => do
    match ← d.staticText lookup layers.style with
    | some text => applyBody lookup (layers.assign d.key text) ds
    | none => applyBody lookup layers ds

/-- Whether a branch fires on a style. -/
def Branch.fires (lookup : Lookup σ) (style : StyleMap) (b : Branch) : Evaluation σ Bool :=
  match b.condition with
  | some c => c.expr.evalBool style lookup
  | none => pure true

/-- Applies the first branch that fires, and says which one it is. -/
def applyBranches (lookup : Lookup σ) (layers : Layers) :
    (index : Nat) → List Branch → Evaluation σ (Layers × Option Nat)
  | _, [] => pure (layers, none)
  | index, b :: bs => do
    if ← b.fires lookup layers.style then
      let layers ← applyBody lookup layers b.body
      pure (layers, some index)
    else applyBranches lookup layers (index + 1) bs

/-- Applies chains one after the other. A dynamic chain is left to the page. -/
def applyChains (lookup : Lookup σ) :
    Layers → List Chain → Evaluation σ (Layers × List (Option Nat))
  | layers, [] => pure (layers, [])
  | layers, c :: cs => do
    if c.isDynamic then
      let (layers, fired) ← applyChains lookup layers cs
      pure (layers, none :: fired)
    else
      let (layers, first) ← applyBranches lookup layers 0 c.branches
      let (layers, fired) ← applyChains lookup layers cs
      pure (layers, first :: fired)

/-- The resolved style of an element by its declarations and chains. -/
def Element.computeStyle (lookup : Lookup σ) (e : Element) : Evaluation σ ResolvedStyle := do
  let style ← staticStyle lookup {} e.style
  let (layers, fired) ← applyChains lookup { style := style } e.chains
  pure ⟨layers.style, fired⟩

/-- Looks up a property of the first element that a selector accepts, given a way to resolve it. -/
def Document.lookupVia (d : Document) (resolve : Element → Span → Evaluation σ ResolvedStyle) :
    Lookup σ := fun selector property span => do
  let missing := EvalError.unresolvedReference (referenceText selector property) span
  match d.find? selector with
  | none => throw missing
  | some e =>
    let resolved ← resolve e span
    match resolved.style.get? property with
    | some text => pure (.ofCss text)
    | none => throw missing

end

/-- Runs a computation with an element on the path, which it leaves again whatever happens. -/
def onPath {α : Type} (nodeId : Nat) (body : Evaluation Memo α) : Evaluation Memo α := do
  modify fun m => { m with inProgress := nodeId :: m.inProgress }
  let result ← ExceptT.lift body.run
  modify fun m => { m with inProgress := m.inProgress.tail }
  match result with
  | .ok a => pure a
  | .error e => throw e

/-- Resolves an element that a reference at `span` asks for. The path holds each element once, so
the number of elements bounds the depth. -/
def Document.resolveFrom (d : Document) : (depth : Nat) → Element → Span →
    Evaluation Memo ResolvedStyle
  | 0, e, span => throw (.circularReference e.describe span)
  | depth + 1, e, span => do
    let memo ← get
    match memo.resolved.lookup e.nodeId with
    | some done => pure done
    | none =>
      if memo.inProgress.contains e.nodeId then throw (.circularReference e.describe span)
      else
        let resolved ← onPath e.nodeId (e.computeStyle (d.lookupVia (d.resolveFrom depth)))
        modify fun m => { m with resolved := (e.nodeId, resolved) :: m.resolved }
        pure resolved

/-- A document to resolve in, with a bound on how far references lead. -/
structure Resolver where
  document : Document
  depth : Nat
  elements_lt_depth : document.elements.length < depth

def Document.resolver (d : Document) : Resolver :=
  ⟨d, d.elements.length + 1, Nat.lt_succ_self _⟩

namespace Resolver

/-- The style of an element of the document. -/
def resolve (r : Resolver) (e : Element) : Evaluation Memo ResolvedStyle :=
  r.document.resolveFrom r.depth e e.span

def lookup (r : Resolver) : Lookup Memo :=
  r.document.lookupVia (r.document.resolveFrom r.depth)

/-- The value of an expression against a style, references going through the document. -/
def evaluate (r : Resolver) (e : Expr) (style : StyleMap) : Evaluation Memo Value :=
  e.eval style r.lookup

def lowerToJs (r : Resolver) (e : Expr) (style : StyleMap) : Evaluation Memo String :=
  e.lower style r.lookup

end Resolver

end Chtl
