import Chtl.Document.Renumber
import Chtl.Markup.Parse
import Chtl.Proofs.Document.Traversal
import Chtl.Proofs.Markup.Pieces
import Chtl.Proofs.Outcome

/-!
# Node ids of a copy

A copy of a template's nodes gets its ids in a row: an element first, then its children, then its
chains. A walk goes through the chains where they stand among the children, so it meets the ids in
ascending order exactly if no child that is an element stands behind a chain that holds one. Nothing
but the ids changes.
-/

set_option autoImplicit false
set_option linter.all false

namespace Chtl

/-- What holds of leaves, and of an element when it holds of the nodes right inside it, holds of
every node. -/
theorem Node.induction {motive : Node → Prop}
    (element : ∀ e : Element, (∀ n ∈ e.children, motive n) →
      (∀ c ∈ e.chains, ∀ b ∈ c.branches, ∀ n ∈ b.children, motive n) → motive (.element e))
    (text : ∀ value span, motive (.text value span))
    (comment : ∀ value span, motive (.comment value span))
    (placeholder : ∀ p kind span, motive (.placeholder p kind span)) (n : Node) : motive n := by
  -- what is proved of elements, branches, chains, nodes, and lists of nodes, chains and branches
  refine @Node.rec (fun e => motive (.element e))
    (fun b => ∀ n ∈ b.children, motive n)
    (fun c => ∀ b ∈ c.branches, ∀ n ∈ b.children, motive n)
    motive
    (fun ns => ∀ n ∈ ns, motive n)
    (fun cs => ∀ c ∈ cs, ∀ b ∈ c.branches, ∀ n ∈ b.children, motive n)
    (fun bs => ∀ b ∈ bs, ∀ n ∈ b.children, motive n)
    ?_ (fun _ _ _ _ h => h) (fun _ _ h => h) (fun _ h => h) text comment placeholder
    (List.forall_mem_nil _) ?_ (List.forall_mem_nil _) ?_ (List.forall_mem_nil _) ?_ n
  · intro nodeId tag attributes children style chains rules span hchildren hchains
    exact element ⟨nodeId, tag, attributes, children, style, chains, rules, span⟩ hchildren hchains
  · exact fun _ _ h hs => List.forall_mem_cons.mpr ⟨h, hs⟩
  · exact fun _ _ h hs => List.forall_mem_cons.mpr ⟨h, hs⟩
  · exact fun _ _ h hs => List.forall_mem_cons.mpr ⟨h, hs⟩

/-! ## The ids in the order in which they are given -/

mutual

/-- The node ids of the elements in a node, each before those of its children, and these before
those of its chains. -/
def Node.numbers : Node → List Nat
  | .element e => e.numbers
  | .text _ _ | .comment _ _ | .placeholder _ _ _ => []

def Element.numbers : Element → List Nat
  | ⟨nodeId, _, _, children, _, chains, _, _⟩ =>
    nodeId :: (numbersOfNodes children ++ numbersOfChains chains)

def Branch.numbers : Branch → List Nat
  | ⟨_, _, children, _⟩ => numbersOfNodes children

def Chain.numbers : Chain → List Nat
  | ⟨branches, _⟩ => numbersOfBranches branches

def numbersOfNodes : List Node → List Nat
  | [] => []
  | n :: ns => n.numbers ++ numbersOfNodes ns

def numbersOfBranches : List Branch → List Nat
  | [] => []
  | b :: bs => b.numbers ++ numbersOfBranches bs

def numbersOfChains : List Chain → List Nat
  | [] => []
  | c :: cs => c.numbers ++ numbersOfChains cs

end

theorem numbersOfNodes_eq_flatMap (ns : List Node) : numbersOfNodes ns = ns.flatMap Node.numbers := by
  induction ns with
  | nil => rfl
  | cons n ns ih => rw [numbersOfNodes, ih, List.flatMap_cons]

theorem numbersOfBranches_eq_flatMap (bs : List Branch) :
    numbersOfBranches bs = bs.flatMap Branch.numbers := by
  induction bs with
  | nil => rfl
  | cons b bs ih => rw [numbersOfBranches, ih, List.flatMap_cons]

theorem numbersOfChains_eq_flatMap (cs : List Chain) :
    numbersOfChains cs = cs.flatMap Chain.numbers := by
  induction cs with
  | nil => rfl
  | cons c cs ih => rw [numbersOfChains, ih, List.flatMap_cons]

theorem Element.numbers_eq (e : Element) :
    e.numbers = e.nodeId :: (numbersOfNodes e.children ++ numbersOfChains e.chains) := by
  cases e
  rw [numbers]

theorem Chain.numbers_eq_flatMap (c : Chain) :
    c.numbers = c.branches.flatMap fun b => b.children.flatMap Node.numbers := by
  have hbranch (b : Branch) : b.numbers = b.children.flatMap Node.numbers := by
    cases b
    rw [Branch.numbers, numbersOfNodes_eq_flatMap]
  cases c
  rw [numbers, numbersOfBranches_eq_flatMap]
  exact List.flatMap_congr fun b _ => hbranch b

/-- The ids in a row from `next` on, and the next one after them. -/
def InRow (next : Nat) (ids : List Nat) (after : Nat) : Prop :=
  ids = List.range' next ids.length ∧ after = next + ids.length

namespace InRow

theorem nil (next : Nat) : InRow next [] next := ⟨rfl, rfl⟩

theorem cons {next after : Nat} {ids : List Nat} (h : InRow (next + 1) ids after) :
    InRow next (next :: ids) after := by
  refine ⟨?_, ?_⟩
  · rw [List.length_cons, List.range'_succ, ← h.1]
  · rw [h.2, List.length_cons]
    omega

theorem append {next middle after : Nat} {ids more : List Nat} (h : InRow next ids middle)
    (h' : InRow middle more after) : InRow next (ids ++ more) after := by
  obtain ⟨hids, rfl⟩ := h
  obtain ⟨hmore, rfl⟩ := h'
  refine ⟨?_, ?_⟩
  · rw [List.length_append, ← List.range'_append_1, ← hids, ← hmore]
  · rw [List.length_append, Nat.add_assoc]

end InRow

-- One theorem for each kind of node, along the recursion that gives the ids.
mutual

theorem Node.renumber_inRow (next : Nat) : (n : Node) →
    InRow next (n.renumber next).1.numbers (n.renumber next).2
  | .element e => e.renumber_inRow next
  | .text .. => .nil next
  | .comment .. => .nil next
  | .placeholder .. => .nil next

theorem Element.renumber_inRow (next : Nat) : (e : Element) →
    InRow next (e.renumber next).1.numbers (e.renumber next).2
  | ⟨_, _, _, children, _, chains, _, _⟩ =>
    .cons ((renumberNodes_inRow (next + 1) children).append (renumberChains_inRow _ chains))

theorem Branch.renumber_inRow (next : Nat) : (b : Branch) →
    InRow next (b.renumber next).1.numbers (b.renumber next).2
  | ⟨_, _, children, _⟩ => renumberNodes_inRow next children

theorem Chain.renumber_inRow (next : Nat) : (c : Chain) →
    InRow next (c.renumber next).1.numbers (c.renumber next).2
  | ⟨branches, _⟩ => renumberBranches_inRow next branches

theorem renumberNodes_inRow (next : Nat) : (ns : List Node) →
    InRow next (numbersOfNodes (renumberNodes next ns).1) (renumberNodes next ns).2
  | [] => .nil next
  | n :: ns => (n.renumber_inRow next).append (renumberNodes_inRow _ ns)

theorem renumberBranches_inRow (next : Nat) : (bs : List Branch) →
    InRow next (numbersOfBranches (renumberBranches next bs).1) (renumberBranches next bs).2
  | [] => .nil next
  | b :: bs => (b.renumber_inRow next).append (renumberBranches_inRow _ bs)

theorem renumberChains_inRow (next : Nat) : (cs : List Chain) →
    InRow next (numbersOfChains (renumberChains next cs).1) (renumberChains next cs).2
  | [] => .nil next
  | c :: cs => (c.renumber_inRow next).append (renumberChains_inRow _ cs)

end

/-! ## All but the ids -/

mutual

/-- The node without its ids. -/
def Node.unnumbered : Node → Node
  | .element e => .element e.unnumbered
  | .text value span => .text value span
  | .comment value span => .comment value span
  | .placeholder p kind span => .placeholder p kind span

def Element.unnumbered : Element → Element
  | ⟨_, tag, attributes, children, style, chains, rules, span⟩ =>
    ⟨0, tag, attributes, unnumberedNodes children, style, unnumberedChains chains, rules, span⟩

def Branch.unnumbered : Branch → Branch
  | ⟨condition, body, children, span⟩ => ⟨condition, body, unnumberedNodes children, span⟩

def Chain.unnumbered : Chain → Chain
  | ⟨branches, anchor⟩ => ⟨unnumberedBranches branches, anchor⟩

def unnumberedNodes : List Node → List Node
  | [] => []
  | n :: ns => n.unnumbered :: unnumberedNodes ns

def unnumberedBranches : List Branch → List Branch
  | [] => []
  | b :: bs => b.unnumbered :: unnumberedBranches bs

def unnumberedChains : List Chain → List Chain
  | [] => []
  | c :: cs => c.unnumbered :: unnumberedChains cs

end

-- Again one theorem for each kind of node.
mutual

theorem Node.unnumbered_renumber (next : Nat) : (n : Node) →
    (n.renumber next).1.unnumbered = n.unnumbered
  | .element e => congrArg Node.element (e.unnumbered_renumber next)
  | .text .. => rfl
  | .comment .. => rfl
  | .placeholder .. => rfl

theorem Element.unnumbered_renumber (next : Nat) : (e : Element) →
    (e.renumber next).1.unnumbered = e.unnumbered
  | ⟨_, _, _, children, _, chains, _, _⟩ => by
    rw [Element.renumber, Element.unnumbered, Element.unnumbered, unnumberedNodes_renumber,
      unnumberedChains_renumber]

theorem Branch.unnumbered_renumber (next : Nat) : (b : Branch) →
    (b.renumber next).1.unnumbered = b.unnumbered
  | ⟨_, _, children, _⟩ => by
    rw [Branch.renumber, Branch.unnumbered, Branch.unnumbered, unnumberedNodes_renumber]

theorem Chain.unnumbered_renumber (next : Nat) : (c : Chain) →
    (c.renumber next).1.unnumbered = c.unnumbered
  | ⟨branches, _⟩ => by
    rw [Chain.renumber, Chain.unnumbered, Chain.unnumbered, unnumberedBranches_renumber]

theorem unnumberedNodes_renumber (next : Nat) : (ns : List Node) →
    unnumberedNodes (renumberNodes next ns).1 = unnumberedNodes ns
  | [] => rfl
  | n :: ns => by
    rw [renumberNodes, unnumberedNodes, unnumberedNodes, n.unnumbered_renumber,
      unnumberedNodes_renumber]

theorem unnumberedBranches_renumber (next : Nat) : (bs : List Branch) →
    unnumberedBranches (renumberBranches next bs).1 = unnumberedBranches bs
  | [] => rfl
  | b :: bs => by
    rw [renumberBranches, unnumberedBranches, unnumberedBranches, b.unnumbered_renumber,
      unnumberedBranches_renumber]

theorem unnumberedChains_renumber (next : Nat) : (cs : List Chain) →
    unnumberedChains (renumberChains next cs).1 = unnumberedChains cs
  | [] => rfl
  | c :: cs => by
    rw [renumberChains, unnumberedChains, unnumberedChains, c.unnumbered_renumber,
      unnumberedChains_renumber]

end

theorem unnumberedNodes_eq_map (ns : List Node) : unnumberedNodes ns = ns.map Node.unnumbered := by
  induction ns with
  | nil => rfl
  | cons n ns ih => rw [unnumberedNodes, ih, List.map_cons]

theorem unnumberedBranches_eq_map (bs : List Branch) :
    unnumberedBranches bs = bs.map Branch.unnumbered := by
  induction bs with
  | nil => rfl
  | cons b bs ih => rw [unnumberedBranches, ih, List.map_cons]

theorem unnumberedChains_eq_map (cs : List Chain) :
    unnumberedChains cs = cs.map Chain.unnumbered := by
  induction cs with
  | nil => rfl
  | cons c cs ih => rw [unnumberedChains, ih, List.map_cons]

/-! ## The ids in document order -/

/-- The node ids that a walk meets. -/
def visited (walk : List Event) : List Nat := (entered walk).map (·.nodeId)

theorem entered_flatten (walks : List (List Event)) :
    entered walks.flatten = walks.flatMap entered := by
  induction walks with
  | nil => rfl
  | cons walk walks ih => rw [List.flatten_cons, entered_append, ih, List.flatMap_cons]

/-- The children and the chains of an element in document order. -/
def Element.content (e : Element) : List (Node ⊕ Chain) :=
  weave 0 (e.children.map .inl) (e.chains.map fun c => (c.anchor, .inr c))

theorem Element.inl_mem_content {e : Element} {n : Node} : .inl n ∈ e.content ↔ n ∈ e.children := by
  simp [content, mem_weave]

theorem Element.inr_mem_content {e : Element} {c : Chain} : .inr c ∈ e.content ↔ c ∈ e.chains := by
  simp [content, mem_weave]

theorem Chain.entered_events (c : Chain) :
    entered c.events = c.branches.flatMap fun b => b.children.flatMap fun n => entered n.events := by
  have hbranch (b : Branch) : entered b.events = b.children.flatMap fun n => entered n.events := by
    cases b
    rw [Branch.events, eventsOfNodes_eq_map, entered_flatten, List.flatMap_map]
  cases c
  rw [events, eventsOfBranches_eq_map]
  simp only [List.cons_append, entered_enterChain, entered_append, entered_leaveChain, entered_nil,
    List.append_nil, entered_flatten, List.flatMap_map]
  exact List.flatMap_congr fun b _ => hbranch b

/-- A walk enters an element, and then what its content holds in document order. -/
theorem Element.entered_events (e : Element) : entered e.events = e :: e.content.flatMap
    (Sum.elim (fun n => entered n.events) fun c => entered c.events) := by
  have hcontent : weave 0 (eventsOfNodes e.children) (eventsOfChains e.chains) =
      e.content.map (Sum.elim Node.events Chain.events) := by
    rw [content, ← weave_map, eventsOfNodes_eq_map, eventsOfChains_eq_map, List.map_map,
      List.map_map]
    rfl
  have hpieces : (Sum.elim (fun n => entered n.events) fun c => entered c.events) =
      entered ∘ Sum.elim Node.events Chain.events := by
    rw [Sum.comp_elim]
    rfl
  cases e
  rw [events, hcontent, hpieces]
  simp only [List.cons_append, entered_enter, entered_append, entered_leave, entered_nil,
    List.append_nil, entered_flatten, List.flatMap_map]
  rfl

/-- Chains are no children. -/
theorem filterMap_getLeft_inr {α β : Type} (chains : List (Nat × β)) :
    ((chains.map fun c => (c.1, (.inr c.2 : α ⊕ β))).map (·.2)).filterMap Sum.getLeft? = [] := by
  simp

theorem filterMap_getLeft_weave {α β : Type} (index : Nat) (children : List α)
    (chains : List (Nat × β)) :
    (weave index (children.map .inl) (chains.map fun c => (c.1, .inr c.2))).filterMap
      Sum.getLeft? = children := by
  induction children generalizing index chains with
  | nil => exact filterMap_getLeft_inr chains
  | cons child children ih =>
    rw [List.map_cons, weave, List.takeWhile_map, List.dropWhile_map, List.filterMap_append,
      filterMap_getLeft_inr, List.nil_append, List.filterMap_cons, Sum.getLeft?_inl, ih]

theorem filterMap_getRight_weave {α β : Type} (index : Nat) (children : List α)
    (chains : List (Nat × β)) :
    (weave index (children.map .inl) (chains.map fun c => (c.1, .inr c.2))).filterMap
      Sum.getRight? = chains.map (·.2) := by
  have hall (chains : List (Nat × β)) :
      ((chains.map fun c => (c.1, (.inr c.2 : α ⊕ β))).map (·.2)).filterMap Sum.getRight? =
        chains.map (·.2) := by
    simp [List.filterMap_map, Function.comp_def]
  induction children generalizing index chains with
  | nil => exact hall chains
  | cons child children ih =>
    rw [List.map_cons, weave, List.takeWhile_map, List.dropWhile_map, List.filterMap_append, hall,
      List.filterMap_cons, Sum.getRight?_inl, ih, ← List.map_append]
    exact congrArg _ List.takeWhile_append_dropWhile

/-- Pieces of two kinds, with those of one kind in front. -/
theorem flatMap_elim_perm {α β γ : Type} (f : α → List γ) (g : β → List γ) (pieces : List (α ⊕ β)) :
    (pieces.flatMap (Sum.elim f g)).Perm
      ((pieces.filterMap Sum.getLeft?).flatMap f ++ (pieces.filterMap Sum.getRight?).flatMap g) := by
  induction pieces with
  | nil => rfl
  | cons piece pieces ih =>
    cases piece with
    | inl a =>
      rw [List.flatMap_cons, List.filterMap_cons, List.filterMap_cons, Sum.getLeft?_inl,
        Sum.getRight?_inl, List.flatMap_cons, List.append_assoc]
      exact ih.append_left (f a)
    | inr b =>
      rw [List.flatMap_cons, List.filterMap_cons, List.filterMap_cons, Sum.getLeft?_inr,
        Sum.getRight?_inr, List.flatMap_cons]
      exact (ih.append_left (g b)).trans (List.perm_append_comm_assoc _ _ _)

/-- Nothing moves if what holds something stands in front already. -/
theorem flatMap_elim_eq {α β γ : Type} {f : α → List γ} {g : β → List γ} {pieces : List (α ⊕ β)}
    (h : pieces.Pairwise fun x y => ∀ b a, x = .inr b → y = .inl a → g b = [] ∨ f a = []) :
    pieces.flatMap (Sum.elim f g) =
      (pieces.filterMap Sum.getLeft?).flatMap f ++ (pieces.filterMap Sum.getRight?).flatMap g := by
  induction pieces with
  | nil => rfl
  | cons piece pieces ih =>
    obtain ⟨hpiece, hpieces⟩ := List.pairwise_cons.mp h
    cases piece with
    | inl a =>
      rw [List.flatMap_cons, List.filterMap_cons, List.filterMap_cons, Sum.getLeft?_inl,
        Sum.getRight?_inl, List.flatMap_cons, List.append_assoc, ih hpieces, Sum.elim_inl]
    | inr b =>
      rw [List.flatMap_cons, List.filterMap_cons, List.filterMap_cons, Sum.getLeft?_inr,
        Sum.getRight?_inr, List.flatMap_cons, ih hpieces, Sum.elim_inr]
      by_cases hb : g b = []
      · rw [hb, List.nil_append, List.nil_append]
      · have hleft : (pieces.filterMap Sum.getLeft?).flatMap f = [] := by
          refine List.flatMap_eq_nil_iff.mpr fun a ha => ?_
          obtain ⟨y, hy, hya⟩ := List.mem_filterMap.mp ha
          exact (hpiece y hy b a rfl (Sum.getLeft?_eq_some_iff.mp hya)).resolve_left hb
        rw [hleft, List.nil_append, List.nil_append]

theorem Element.visited_events (e : Element) : visited e.events = e.nodeId :: e.content.flatMap
    (Sum.elim (fun n => visited n.events) fun c => visited c.events) := by
  rw [visited, entered_events, List.map_cons, List.map_flatMap]
  congr 2
  funext piece
  cases piece <;> rfl

theorem Chain.visited_events (c : Chain) :
    visited c.events = c.branches.flatMap fun b => b.children.flatMap fun n => visited n.events := by
  rw [visited, entered_events, List.map_flatMap]
  simp only [List.map_flatMap]
  rfl

theorem Element.content_children (e : Element) : e.content.filterMap Sum.getLeft? = e.children := by
  have h := filterMap_getLeft_weave 0 e.children (e.chains.map fun c => (c.anchor, c))
  rwa [List.map_map] at h

theorem Element.content_chains (e : Element) : e.content.filterMap Sum.getRight? = e.chains := by
  have h := filterMap_getRight_weave 0 e.children (e.chains.map fun c => (c.anchor, c))
  rw [List.map_map, List.map_map, List.map_id''] at h
  · exact h
  · exact fun _ => rfl

/-- The ids are given to the elements that a walk enters. -/
theorem Node.visited_perm (n : Node) : (visited n.events).Perm n.numbers := by
  induction n using Node.induction with
  | element e hchildren hbranches =>
    have hchain (c : Chain) (hc : c ∈ e.chains) : (visited c.events).Perm c.numbers := by
      rw [c.visited_events, c.numbers_eq_flatMap]
      exact .flatMap_left _ fun b hb => .flatMap_left _ (hbranches c hc b hb)
    rw [Node.events, Node.numbers, e.visited_events, e.numbers_eq, numbersOfNodes_eq_flatMap,
      numbersOfChains_eq_flatMap]
    refine ((flatMap_elim_perm _ _ e.content).trans ?_).cons e.nodeId
    rw [e.content_children, e.content_chains]
    exact (List.Perm.flatMap_left _ hchildren).append (.flatMap_left _ hchain)
  | text => rfl
  | comment => rfl
  | placeholder => rfl

theorem Chain.visited_perm (c : Chain) : (visited c.events).Perm c.numbers := by
  rw [c.visited_events, c.numbers_eq_flatMap]
  exact .flatMap_left _ fun b _ => .flatMap_left _ fun n _ => n.visited_perm

/-! ## Where the two orders agree -/

def Node.isElement : Node → Bool
  | .element _ => true
  | _ => false

/-- Whether an element stands in one of the branches. -/
def Chain.holdsElement (c : Chain) : Bool := c.branches.any (·.children.any Node.isElement)

/-- No child that is an element stands behind a chain that holds one. -/
def Element.ChainsLast (e : Element) : Prop :=
  e.content.Pairwise fun x y => ∀ c n, x = .inr c → y = .inl n →
    c.holdsElement = false ∨ n.isElement = false

theorem Node.isElement_eq_false_iff (n : Node) : n.isElement = false ↔ n.numbers = [] := by
  cases n with
  | element e => simp [isElement, numbers, e.numbers_eq]
  | _ => simp [isElement, numbers]

theorem Chain.holdsElement_eq_false_iff (c : Chain) : c.holdsElement = false ↔ c.numbers = [] := by
  rw [c.numbers_eq_flatMap, holdsElement]
  simp [Node.isElement_eq_false_iff]

/-- Where no element stands behind a chain that holds one, a walk meets the ids as they were
given. -/
theorem Node.visited_eq {n : Node} (h : ∀ e ∈ entered n.events, e.ChainsLast) :
    visited n.events = n.numbers := by
  induction n using Node.induction with
  | element e hchildren hbranches =>
    rw [Node.events, e.entered_events] at h
    obtain ⟨hown, hinner⟩ := List.forall_mem_cons.mp h
    have hpiece (piece : Node ⊕ Chain) (hpiece : piece ∈ e.content) :
        Sum.elim (fun n => visited n.events) (fun c => visited c.events) piece =
          Sum.elim Node.numbers Chain.numbers piece := by
      cases piece with
      | inl n =>
        exact hchildren n (Element.inl_mem_content.mp hpiece) fun x hx =>
          hinner x (List.mem_flatMap.mpr ⟨_, hpiece, hx⟩)
      | inr c =>
        rw [Sum.elim_inr, Sum.elim_inr, c.visited_events, c.numbers_eq_flatMap]
        refine List.flatMap_congr fun b hb => List.flatMap_congr fun n hn => ?_
        refine hbranches c (Element.inr_mem_content.mp hpiece) b hb n hn fun x hx => ?_
        refine hinner x (List.mem_flatMap.mpr ⟨_, hpiece, ?_⟩)
        rw [Sum.elim_inr, c.entered_events]
        exact List.mem_flatMap.mpr ⟨b, hb, List.mem_flatMap.mpr ⟨n, hn, hx⟩⟩
    have hlast : e.content.Pairwise fun x y => ∀ c n, x = .inr c → y = .inl n →
        c.numbers = [] ∨ n.numbers = [] :=
      hown.imp fun hxy c n hx hy => (hxy c n hx hy).imp c.holdsElement_eq_false_iff.mp
        n.isElement_eq_false_iff.mp
    rw [Node.events, Node.numbers, e.visited_events, e.numbers_eq, List.flatMap_congr hpiece,
      flatMap_elim_eq hlast, e.content_children, e.content_chains, numbersOfNodes_eq_flatMap,
      numbersOfChains_eq_flatMap]
  | text => rfl
  | comment => rfl
  | placeholder => rfl

/-- If a walk meets ids in ascending order, and they were given in ascending order, no element
stands behind a chain that holds one. -/
theorem Node.chainsLast_of_visited {n : Node} (hvisited : (visited n.events).Pairwise (· < ·))
    (hgiven : n.numbers.Pairwise (· < ·)) : ∀ e ∈ entered n.events, e.ChainsLast := by
  induction n using Node.induction with
  | element e hchildren hbranches =>
    rw [Node.events, e.visited_events] at hvisited
    rw [Node.numbers, e.numbers_eq, numbersOfNodes_eq_flatMap, numbersOfChains_eq_flatMap] at hgiven
    obtain ⟨hpieces, hapart⟩ := List.pairwise_flatMap.mp hvisited.of_cons
    obtain ⟨hnodes, hchains, hbefore⟩ := List.pairwise_append.mp hgiven.of_cons
    rw [Node.events, e.entered_events]
    intro x hx
    rcases List.mem_cons.mp hx with rfl | hx
    · refine hapart.imp_of_mem fun {first second} hfirst hsecond hlt => ?_
      rintro c n rfl rfl
      by_contra hboth
      rw [c.holdsElement_eq_false_iff, n.isElement_eq_false_iff] at hboth
      obtain ⟨hc, hn⟩ := not_or.mp hboth
      obtain ⟨i, hi⟩ := List.exists_mem_of_ne_nil _ hc
      obtain ⟨j, hj⟩ := List.exists_mem_of_ne_nil _ hn
      -- the walk meets the chain first, but the child was given its id before
      have hmet : i < j := hlt i (c.visited_perm.mem_iff.mpr hi) j (n.visited_perm.mem_iff.mpr hj)
      have hgave : j < i :=
        hbefore j (List.mem_flatMap.mpr ⟨n, Element.inl_mem_content.mp hsecond, hj⟩) i
          (List.mem_flatMap.mpr ⟨c, Element.inr_mem_content.mp hfirst, hi⟩)
      exact Nat.lt_asymm hmet hgave
    · obtain ⟨piece, hpiece, hx⟩ := List.mem_flatMap.mp hx
      have hwalk := hpieces piece hpiece
      cases piece with
      | inl n =>
        have hn := Element.inl_mem_content.mp hpiece
        exact hchildren n hn hwalk ((List.pairwise_flatMap.mp hnodes).1 n hn) x hx
      | inr c =>
        have hc := Element.inr_mem_content.mp hpiece
        have hids := (List.pairwise_flatMap.mp hchains).1 c hc
        rw [Sum.elim_inr, c.entered_events] at hx
        rw [Sum.elim_inr, c.visited_events] at hwalk
        rw [c.numbers_eq_flatMap] at hids
        obtain ⟨b, hb, hx⟩ := List.mem_flatMap.mp hx
        obtain ⟨n, hn, hx⟩ := List.mem_flatMap.mp hx
        refine hbranches c hc b hb n hn ?_ ?_ x hx
        · exact (List.pairwise_flatMap.mp ((List.pairwise_flatMap.mp hwalk).1 b hb)).1 n hn
        · exact (List.pairwise_flatMap.mp ((List.pairwise_flatMap.mp hids).1 b hb)).1 n hn
  | text => exact nofun
  | comment => exact nofun
  | placeholder => exact nofun

theorem Node.isElement_unnumbered (n : Node) : n.unnumbered.isElement = n.isElement := by
  cases n <;> rfl

theorem Branch.children_unnumbered (b : Branch) :
    b.unnumbered.children = b.children.map Node.unnumbered := by
  cases b
  exact unnumberedNodes_eq_map _

theorem Chain.branches_unnumbered (c : Chain) :
    c.unnumbered.branches = c.branches.map Branch.unnumbered := by
  cases c
  exact unnumberedBranches_eq_map _

theorem Chain.holdsElement_unnumbered (c : Chain) : c.unnumbered.holdsElement = c.holdsElement := by
  simp only [holdsElement, c.branches_unnumbered, List.any_map, Function.comp_def,
    Branch.children_unnumbered, Node.isElement_unnumbered]

@[simp] theorem Chain.anchor_unnumbered (c : Chain) : c.unnumbered.anchor = c.anchor := by
  cases c
  rfl

theorem Element.content_unnumbered (e : Element) :
    e.unnumbered.content = e.content.map (Sum.map Node.unnumbered Chain.unnumbered) := by
  cases e
  rw [unnumbered, content, content, ← weave_map, unnumberedNodes_eq_map, unnumberedChains_eq_map]
  simp only [List.map_map, Function.comp_def, Sum.map_inl, Sum.map_inr, Chain.anchor_unnumbered]

theorem Element.chainsLast_unnumbered (e : Element) : e.unnumbered.ChainsLast ↔ e.ChainsLast := by
  rw [ChainsLast, ChainsLast, content_unnumbered, List.pairwise_map]
  refine ⟨fun h => h.imp fun {x y} hxy c n hx hy => ?_, fun h => h.imp fun {x y} hxy c n hx hy => ?_⟩
  · subst hx hy
    rw [← c.holdsElement_unnumbered, ← n.isElement_unnumbered]
    exact hxy _ _ rfl rfl
  · obtain ⟨c, rfl, rfl⟩ : ∃ c', x = .inr c' ∧ c'.unnumbered = c := by
      cases x <;> simp_all
    obtain ⟨n, rfl, rfl⟩ : ∃ n', y = .inl n' ∧ n'.unnumbered = n := by
      cases y <;> simp_all
    rw [c.holdsElement_unnumbered, n.isElement_unnumbered]
    exact hxy _ _ rfl rfl

/-- A walk through what is left without the ids enters the same elements. -/
theorem Node.entered_unnumbered (n : Node) :
    entered n.unnumbered.events = (entered n.events).map Element.unnumbered := by
  induction n using Node.induction with
  | element e hchildren hbranches =>
    rw [Node.unnumbered, Node.events, Node.events, Element.entered_events, e.entered_events,
      e.content_unnumbered, List.map_cons, List.flatMap_map, List.map_flatMap]
    refine congrArg (e.unnumbered :: ·) (List.flatMap_congr fun piece hpiece => ?_)
    cases piece with
    | inl n => exact hchildren n (Element.inl_mem_content.mp hpiece)
    | inr c =>
      have hc := Element.inr_mem_content.mp hpiece
      rw [Sum.map_inr, Sum.elim_inr, Sum.elim_inr, Chain.entered_events, Chain.entered_events,
        c.branches_unnumbered, List.flatMap_map, List.map_flatMap]
      refine List.flatMap_congr fun b hb => ?_
      rw [b.children_unnumbered, List.flatMap_map, List.map_flatMap]
      exact List.flatMap_congr (hbranches c hc b hb)
  | text => rfl
  | comment => rfl
  | placeholder => rfl

namespace Element

theorem visited_perm (e : Element) : (visited e.events).Perm e.numbers :=
  Node.visited_perm (.element e)

theorem entered_unnumbered (e : Element) :
    entered e.unnumbered.events = (entered e.events).map unnumbered :=
  Node.entered_unnumbered (.element e)

theorem chainsLast_iff_unnumbered (e : Element) :
    (∀ x ∈ entered e.events, x.ChainsLast) ↔ ∀ x ∈ entered e.unnumbered.events, x.ChainsLast := by
  simp only [e.entered_unnumbered, List.forall_mem_map, chainsLast_unnumbered]

/-- Where the ids were given in ascending order, a walk meets them in that order exactly if no
element stands behind a chain that holds one. -/
theorem visited_eq_iff {e : Element} (h : e.numbers.Pairwise (· < ·)) :
    visited e.events = e.numbers ↔ ∀ x ∈ entered e.events, x.ChainsLast :=
  ⟨fun hvisited => Node.chainsLast_of_visited (n := .element e) (hvisited ▸ h) h,
    fun hlast => Node.visited_eq (n := .element e) hlast⟩

/-- A copy is the element but for its ids, and these are as many in a row as there are elements. A
walk meets them in their order if and only if in every element no child that is an element stands
behind a chain that holds one. -/
theorem renumber_in_document_order_iff (e : Element) (next : Nat) :
    (e.renumber next).1.unnumbered = e.unnumbered ∧
      (e.renumber next).2 = next + (entered e.events).length ∧
      (visited (e.renumber next).1.events).Perm (List.range' next (entered e.events).length) ∧
      (visited (e.renumber next).1.events = List.range' next (entered e.events).length ↔
        ∀ x ∈ entered e.events, x.ChainsLast) := by
  obtain ⟨hrow, hnext⟩ := e.renumber_inRow next
  have hsame := e.unnumbered_renumber next
  have hperm := (e.renumber next).1.visited_perm
  have hlength : (e.renumber next).1.numbers.length = (entered e.events).length := by
    have hwalk (x : Element) : (entered x.events).length = (entered x.unnumbered.events).length := by
      rw [x.entered_unnumbered, List.length_map]
    rw [hwalk e, ← hsame, ← hwalk, ← hperm.length_eq, visited, List.length_map]
  rw [hlength] at hrow hnext
  refine ⟨hsame, hnext, hrow ▸ hperm, ?_⟩
  have hascending : (e.renumber next).1.numbers.Pairwise (· < ·) := hrow ▸ List.pairwise_lt_range'
  rw [← hrow, visited_eq_iff hascending, chainsLast_iff_unnumbered, hsame,
    ← chainsLast_iff_unnumbered]

/-- A child behind a branch with an element gets its id before that element, although a walk meets
it later. -/
theorem renumber_out_of_document_order :
    ∃ source, source = ("[Template] @Element T \x7b div \x7b ".toList ++
        "if \x7b condition: 1 > 0, b \x7b \x7d \x7d c \x7b \x7d \x7d \x7d @Element T;".toList) ∧
      ∃ s, scan source = .ok s ∧ ∃ d, Document.ofScanned s = .ok d ∧
        d.elements.map (·.tag) = ["div", "b", "c"] ∧ d.elements.map (·.nodeId) = [3, 5, 4] ∧
        ∃ e ∈ d.elements, (∀ x ∈ entered e.events, (x.chains.map (·.anchor)).Pairwise (· ≤ ·)) ∧
          visited (e.renumber 3).1.events = [3, 5, 4] := by
  refine ⟨_, rfl, ?_⟩
  rw [String.toList_ofList, String.toList_ofList]
  decide +kernel

end Element

end Chtl
