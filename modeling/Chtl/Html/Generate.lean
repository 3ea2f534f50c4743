import Chtl.Bridge.Basic
import Chtl.Html.Mark
import Chtl.Style.Resolve

/-!
# Generating a page

The document is written out in document order. Static chains contribute the branch that fires,
dynamic chains all their branches in wrappers that the page's code shows and hides. Placeholders of
scripts and of global styles stay in the page until their blocks are compiled.
-/

set_option autoImplicit false
set_option linter.all false

namespace Chtl

namespace Html

structure GenState where
  memo : Memo := {}
  bridge : Bridge := {}
  ids : IdPool := {}
  deriving DecidableEq, Repr

abbrev Generation := ExceptT EvalError (StateM GenState)

/-- Resolves and evaluates with the memory of the generation. -/
def resolving {α : Type} (x : Evaluation Memo α) : Generation α := do
  let s ← get
  let (result, memo) := x.run.run s.memo
  set { s with memo := memo }
  match result with
  | .ok a => pure a
  | .error e => throw e

def recording (f : Bridge → Bridge) : Generation Unit :=
  modify fun s => { s with bridge := f s.bridge }

def freshId (stem : IdStem) : Generation String := do
  let s ← get
  let (id, ids) := s.ids.allocate stem
  set { s with ids := ids }
  pure id

def beginChain : Generation Nat := do
  let s ← get
  let (n, bridge) := s.bridge.beginChain
  set { s with bridge := bridge }
  pure n

/-- Runs generators one after the other and joins what they write. -/
def inTurn : List (Generation (List Mark)) → Generation (List Mark)
  | [] => pure []
  | g :: gs => do
    let marks ← g
    let more ← inTurn gs
    pure (marks ++ more)

/-- Elements that are written without an end tag when they have no content. -/
def voidTags : List String :=
  ["area", "base", "br", "col", "embed", "hr", "img", "input", "link", "meta", "source", "track",
    "wbr"]

/-- The condition under which a branch is taken: all earlier ones are false and its own is true. -/
def guardText (earlier : List String) (condition : Option String) : String :=
  let parts :=
    earlier.map (fun c => "!(" ++ c ++ ")") ++
      match condition with
      | none => []
      | some c => [if earlier.isEmpty then c else "(" ++ c ++ ")"]
  if parts.isEmpty then "true" else String.intercalate " && " parts

/-- The bindings of an element's attributes and declarations that follow variables. -/
def responsiveBindings (e : Element) (id : String) : List (String × ResponsiveBinding) :=
  e.attributes.filterMap (fun a =>
      match a.value with
      | .responsive name unit => some (name, ⟨id, a.name, unit⟩)
      | .literal _ => none) ++
    e.style.filterMap fun d =>
      match d.value with
      | .responsive name unit => some (name, ⟨id, "style." ++ d.key, unit⟩)
      | _ => none

/-- Records what follows variables in an element with an id. -/
def recordResponsive (e : Element) : (id : Option String) → Generation Unit
  | some id => recording fun b =>
    (responsiveBindings e id).foldl (fun b (name, binding) => b.recordResponsive name binding) b
  | none => pure ()

/-- Generates an id for an element that needs one and has none. -/
def generatedId (e : Element) : Generation (Option String) :=
  match e.id? with
  | some _ => pure none
  | none =>
    if needsId e then do
      let id ← freshId .element
      pure (some id)
    else pure none

/-- Records what the body of a branch sets, and says whether that was anything. -/
def recordBody (style : StyleMap) (lookup : Lookup Memo)
    (binding : String → String → ConditionalBinding) :
    List StyleDeclaration → Generation Bool
  | [] => pure false
  | d :: ds => do
    match ← resolving (d.staticText lookup style) with
    | some value =>
      recording (·.recordConditional (binding d.key value))
      let _ ← recordBody style lookup binding ds
      pure true
    | none => recordBody style lookup binding ds

/-- Lowers a branch of a dynamic chain. A branch that sets nothing still takes its place if another
one does. -/
def recordBranch (r : Resolver) (style : StyleMap) (target : String) (chain index : Nat)
    (setsAnything : Bool) (condition : Option Condition) (body : List StyleDeclaration) :
    Generation (Option String) := do
  let js ← match condition with
    | some c => do
      let js ← resolving (r.lowerToJs c.expr style)
      pure (some js)
    | none => pure none
  let binding (key value : String) : ConditionalBinding := ⟨target, key, js, value, chain, index⟩
  let recorded ← recordBody style r.lookup binding body
  if setsAnything && !recorded then recording (·.recordConditional (binding "" ""))
  pure js

def scriptContext (p : Placeholder) (kind : FragmentKind) (parent : Option String) :
    Generation Unit :=
  match kind, parent with
  | .script, some id => recording (·.recordContext p.token id)
  | _, _ => pure ()

/-- Writes the content of an element and its end tag. A void element without content has none. -/
def closed (tag : String) (empty : Bool) (content : Generation (List Mark)) :
    Generation (List Mark) :=
  if voidTags.contains tag && empty then pure []
  else do
    let marks ← content
    pure (marks ++ [.stop tag])

/-- Writes the content of a branch in a wrapper that the page's code shows while a condition holds. A
branch without content has no wrapper. -/
def inWrapper (empty : Bool) (condition : String) (content : Generation (List Mark)) :
    Generation (List Mark) :=
  if empty then pure []
  else do
    let wrapper ← freshId .rendering
    recording (·.recordRendering ⟨wrapper, condition⟩)
    let marks ← content
    pure (.wrapper wrapper :: marks ++ [.stop "div"])

mutual

/-- Writes a node; `parent` is the id of the element around it. -/
def node (r : Resolver) (parent : Option String) : Node → Generation (List Mark)
  | .element e => element r e
  | .text value _ => pure [.text value]
  | .comment value _ => pure [.comment value]
  | .placeholder p kind _ => do
    scriptContext p kind parent
    pure [.placeholder p kind parent]

def element (r : Resolver) : Element → Generation (List Mark)
  | ⟨nodeId, tag, attributes, children, style, chains, rules, span⟩ => do
    let e : Element := ⟨nodeId, tag, attributes, children, style, chains, rules, span⟩
    let resolved ← resolving (r.resolve e)
    let generated ← generatedId e
    let id := e.id?.or generated
    recordResponsive e id
    let content ← closed tag (children.isEmpty && chains.isEmpty) (inTurn
      (weave 0 (nodes r id children) (chainsOf r resolved.style id chains resolved.fired)))
    pure (.start e generated resolved.style :: content ++ [.rules e id])

def nodes (r : Resolver) (parent : Option String) : List Node → List (Generation (List Mark))
  | [] => []
  | n :: ns => node r parent n :: nodes r parent ns

/-- Writes the chains of an element, each with the branch that fired. -/
def chainsOf (r : Resolver) (style : StyleMap) (id : Option String) :
    List Chain → List (Option Nat) → List (Nat × Generation (List Mark))
  | ⟨branches, anchor⟩ :: cs, fired :: rest =>
    (anchor,
      if branches.any Branch.isDynamic then do
        let chain ← beginChain
        dynamicBranches r style (id.getD "") chain (branches.any fun b => !b.body.isEmpty) 0 []
          branches
      else
        match fired with
        | some index => firedBranch r id index branches
        | none => pure []) ::
      chainsOf r style id cs rest
  | [], _ => []
  | _ :: _, [] => []

/-- Writes the children of the branch with an index. -/
def firedBranch (r : Resolver) (id : Option String) :
    Nat → List Branch → Generation (List Mark)
  | _, [] => pure []
  | 0, ⟨_, _, children, _⟩ :: _ => inTurn (nodes r id children)
  | index + 1, _ :: bs => firedBranch r id index bs

/-- Writes the branches of a dynamic chain, the children of each in a wrapper of its own. -/
def dynamicBranches (r : Resolver) (style : StyleMap) (target : String) (chain : Nat)
    (setsAnything : Bool) :
    (index : Nat) → (earlier : List String) → List Branch → Generation (List Mark)
  | _, _, [] => pure []
  | index, earlier, ⟨condition, body, children, _⟩ :: bs => do
    let js ← recordBranch r style target chain index setsAnything condition body
    let wrapped ← inWrapper children.isEmpty (guardText earlier js)
      (inTurn (nodes r (some target) children))
    let more ← dynamicBranches r style target chain setsAnything (index + 1)
      (match js with
        | some js => earlier ++ [js]
        | none => earlier) bs
    pure (wrapped ++ more)

end

end Html

/-- The marks of a document's page, and the bridge with the facts that were recorded on the way. -/
def Document.marks (d : Document) (bridge : Bridge) :
    Except EvalError (List Html.Mark × Bridge) :=
  let start : Html.GenState := { bridge := bridge, ids := .ofDocument d }
  let (result, final) := (Html.inTurn (Html.nodes d.resolver none d.children)).run.run start
  match result with
  | .ok marks => .ok (marks, final.bridge)
  | .error e => .error e

/-- Generates the page of a document, adding to the facts in the bridge. -/
def Document.generate (d : Document) (bridge : Bridge) : Except EvalError (Page × Bridge) := do
  let (marks, bridge) ← d.marks bridge
  .ok (.ofMarks marks, bridge)

end Chtl
