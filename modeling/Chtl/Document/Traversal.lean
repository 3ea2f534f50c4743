import Chtl.Document.Element

/-!
# Document order

Walking a document enters an element, goes through its children and chains in document order, and
leaves it. A chain is walked branch by branch. Looking for an element stops at the first one that a
selector accepts.
-/

set_option autoImplicit false
set_option linter.all false

namespace Chtl

inductive Event where
  | enter (e : Element)
  | leave (e : Element)
  | enterChain (c : Chain)
  | leaveChain (c : Chain)
  | text (value : String)
  | comment (value : String)
  | placeholder (p : Placeholder)

mutual

def Node.events : Node → List Event
  | .element e => e.events
  | .text value _ => [.text value]
  | .comment value _ => [.comment value]
  | .placeholder p _ _ => [.placeholder p]

def Element.events : Element → List Event
  | ⟨nodeId, tag, attributes, children, style, chains, rules, span⟩ =>
    let e : Element := ⟨nodeId, tag, attributes, children, style, chains, rules, span⟩
    .enter e :: (weave 0 (eventsOfNodes children) (eventsOfChains chains)).flatten ++ [.leave e]

def Branch.events : Branch → List Event
  | ⟨_, _, children, _⟩ => (eventsOfNodes children).flatten

def Chain.events : Chain → List Event
  | ⟨branches, anchor⟩ =>
    .enterChain ⟨branches, anchor⟩ :: (eventsOfBranches branches).flatten ++
      [.leaveChain ⟨branches, anchor⟩]

def eventsOfNodes : List Node → List (List Event)
  | [] => []
  | n :: ns => n.events :: eventsOfNodes ns

def eventsOfBranches : List Branch → List (List Event)
  | [] => []
  | b :: bs => b.events :: eventsOfBranches bs

def eventsOfChains : List Chain → List (Nat × List Event)
  | [] => []
  | c :: cs => (c.anchor, c.events) :: eventsOfChains cs

end

def Document.events (d : Document) : List Event :=
  (eventsOfNodes d.children).flatten

def Event.entered? : Event → Option Element
  | enter e => some e
  | _ => none

/-- The elements of a document in document order. -/
def Document.elements (d : Document) : List Element :=
  d.events.filterMap Event.entered?

/-- The first result of a list of searches. -/
def firstFound {α : Type} : List (Option α) → Option α
  | [] => none
  | some a :: _ => some a
  | none :: rest => firstFound rest

mutual

def Node.find? (s : Selector) : Node → Option Element
  | .element e => e.find? s
  | .text _ _ | .comment _ _ | .placeholder _ _ _ => none

def Element.find? (s : Selector) : Element → Option Element
  | ⟨nodeId, tag, attributes, children, style, chains, rules, span⟩ =>
    let e : Element := ⟨nodeId, tag, attributes, children, style, chains, rules, span⟩
    if s.accepts e then some e
    else firstFound (weave 0 (findInNodes s children) (findInChains s chains))

def Branch.find? (s : Selector) : Branch → Option Element
  | ⟨_, _, children, _⟩ => firstFound (findInNodes s children)

def Chain.find? (s : Selector) : Chain → Option Element
  | ⟨branches, _⟩ => firstFound (findInBranches s branches)

def findInNodes (s : Selector) : List Node → List (Option Element)
  | [] => []
  | n :: ns => n.find? s :: findInNodes s ns

def findInBranches (s : Selector) : List Branch → List (Option Element)
  | [] => []
  | b :: bs => b.find? s :: findInBranches s bs

def findInChains (s : Selector) : List Chain → List (Nat × Option Element)
  | [] => []
  | c :: cs => (c.anchor, c.find? s) :: findInChains s cs

end

/-- The first element in document order that the selector accepts. -/
def Document.find? (d : Document) (s : Selector) : Option Element :=
  firstFound (findInNodes s d.children)

end Chtl
