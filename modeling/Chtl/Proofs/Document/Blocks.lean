import Chtl.Proofs.Document.Copies
import Chtl.Proofs.Document.Traversal

/-!
# Blocks in a document

The blocks that stay in a document as placeholders, in document order. A walk through the document
meets them in this order, and no placeholder stands among them more often than it has copies.
-/

set_option autoImplicit false
set_option linter.all false

namespace Chtl

/-- A block that stays in a document, as its placeholder stands there. -/
structure Block where
  placeholder : Placeholder
  kind : FragmentKind
  span : Span
  deriving DecidableEq, Repr

mutual

def Node.blocks : Node → List Block
  | .element e => e.blocks
  | .text _ _ | .comment _ _ => []
  | .placeholder p kind span => [⟨p, kind, span⟩]

def Element.blocks : Element → List Block
  | ⟨_, _, _, children, _, chains, _, _⟩ =>
    (weave 0 (blocksOfNodes children) (blocksOfChains chains)).flatten

def Branch.blocks : Branch → List Block
  | ⟨_, _, children, _⟩ => (blocksOfNodes children).flatten

def Chain.blocks : Chain → List Block
  | ⟨branches, _⟩ => (blocksOfBranches branches).flatten

def blocksOfNodes : List Node → List (List Block)
  | [] => []
  | n :: ns => n.blocks :: blocksOfNodes ns

def blocksOfBranches : List Branch → List (List Block)
  | [] => []
  | b :: bs => b.blocks :: blocksOfBranches bs

def blocksOfChains : List Chain → List (Nat × List Block)
  | [] => []
  | c :: cs => (c.anchor, c.blocks) :: blocksOfChains cs

end

def Document.blocks (d : Document) : List Block := (blocksOfNodes d.children).flatten

def Event.placeholder? : Event → Option Placeholder
  | placeholder p => some p
  | _ => none

/-- The placeholders that a walk meets. -/
def met (walk : List Event) : List Placeholder := walk.filterMap Event.placeholder?

@[simp] theorem met_append (walk more : List Event) : met (walk ++ more) = met walk ++ met more :=
  List.filterMap_append

@[simp] theorem met_enter (e : Element) (walk : List Event) : met (.enter e :: walk) = met walk := rfl

@[simp] theorem met_leave (e : Element) (walk : List Event) : met (.leave e :: walk) = met walk := rfl

@[simp] theorem met_enterChain (c : Chain) (walk : List Event) :
    met (.enterChain c :: walk) = met walk := rfl

@[simp] theorem met_leaveChain (c : Chain) (walk : List Event) :
    met (.leaveChain c :: walk) = met walk := rfl

@[simp] theorem met_nil : met [] = [] := rfl

theorem met_flatten (walks : List (List Event)) : met walks.flatten = (walks.map met).flatten := by
  induction walks with
  | nil => rfl
  | cons walk walks ih => rw [List.flatten_cons, met_append, ih, List.map_cons, List.flatten_cons]

-- A walk meets the blocks in their order: one theorem for each kind of node, as for searches.
mutual

theorem Node.met_events : (n : Node) → met n.events = n.blocks.map (·.placeholder)
  | .element e => by
    rw [Node.events, Node.blocks]
    exact e.met_events
  | .text .. => rfl
  | .comment .. => rfl
  | .placeholder .. => rfl

theorem Element.met_events : (e : Element) → met e.events = e.blocks.map (·.placeholder)
  | ⟨nodeId, tag, attributes, children, style, chains, rules, span⟩ => by
    have hinner : met (weave 0 (eventsOfNodes children) (eventsOfChains chains)).flatten =
        (weave 0 (blocksOfNodes children) (blocksOfChains chains)).flatten.map (·.placeholder) := by
      rw [met_flatten, ← weave_map, met_eventsOfNodes, met_eventsOfChains, weave_map,
        List.map_flatten]
    rw [Element.events, Element.blocks, ← hinner]
    simp

theorem Branch.met_events : (b : Branch) → met b.events = b.blocks.map (·.placeholder)
  | ⟨_, _, children, _⟩ => by
    rw [Branch.events, Branch.blocks, met_flatten, met_eventsOfNodes, List.map_flatten]

theorem Chain.met_events : (c : Chain) → met c.events = c.blocks.map (·.placeholder)
  | ⟨branches, anchor⟩ => by
    have hinner : met (eventsOfBranches branches).flatten =
        (blocksOfBranches branches).flatten.map (·.placeholder) := by
      rw [met_flatten, met_eventsOfBranches, List.map_flatten]
    rw [Chain.events, Chain.blocks, ← hinner]
    simp

theorem met_eventsOfNodes : (ns : List Node) →
    (eventsOfNodes ns).map met = (blocksOfNodes ns).map (·.map (·.placeholder))
  | [] => rfl
  | n :: ns => by
    rw [eventsOfNodes, blocksOfNodes, List.map_cons, List.map_cons, n.met_events,
      met_eventsOfNodes ns]

theorem met_eventsOfBranches : (bs : List Branch) →
    (eventsOfBranches bs).map met = (blocksOfBranches bs).map (·.map (·.placeholder))
  | [] => rfl
  | b :: bs => by
    rw [eventsOfBranches, blocksOfBranches, List.map_cons, List.map_cons, b.met_events,
      met_eventsOfBranches bs]

theorem met_eventsOfChains : (cs : List Chain) →
    (eventsOfChains cs).map (fun c => (c.1, met c.2)) =
      (blocksOfChains cs).map fun c => (c.1, c.2.map (·.placeholder))
  | [] => rfl
  | c :: cs => by
    rw [eventsOfChains, blocksOfChains, List.map_cons, List.map_cons, c.met_events,
      met_eventsOfChains cs]

end

theorem blocksOfNodes_eq_map (ns : List Node) : blocksOfNodes ns = ns.map Node.blocks := by
  induction ns with
  | nil => rfl
  | cons n ns ih => rw [blocksOfNodes, ih, List.map_cons]

theorem blocksOfBranches_eq_map (bs : List Branch) :
    blocksOfBranches bs = bs.map Branch.blocks := by
  induction bs with
  | nil => rfl
  | cons b bs ih => rw [blocksOfBranches, ih, List.map_cons]

theorem blocksOfChains_eq_map (cs : List Chain) :
    blocksOfChains cs = cs.map fun c => (c.anchor, c.blocks) := by
  induction cs with
  | nil => rfl
  | cons c cs ih => rw [blocksOfChains, ih, List.map_cons]

/-- A walk through the document meets the placeholders of its blocks in their order. -/
theorem Document.met_events (d : Document) : met d.events = d.blocks.map (·.placeholder) := by
  rw [Document.events, Document.blocks, met_flatten, met_eventsOfNodes, List.map_flatten]

end Chtl
