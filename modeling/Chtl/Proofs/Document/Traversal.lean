import Chtl.Document.Traversal
import Mathlib.Algebra.BigOperators.Group.List.Basic
import Mathlib.Algebra.Order.Ring.Int
import Mathlib.Data.List.Forall2
import Mathlib.Tactic.Common

/-!
# Looking through a document

A search for an element gives the first one that a walk through the document enters and that the
selector accepts. Both go through children and chains in the order of `weave`, which does not look
at the items it puts in order.
-/

set_option autoImplicit false
set_option linter.all false

namespace Chtl

theorem weave_map {α β : Type} (f : α → β) (index : Nat) (children : List α)
    (chains : List (Nat × α)) :
    weave index (children.map f) (chains.map fun c => (c.1, f c.2)) =
      (weave index children chains).map f := by
  induction children generalizing index chains with
  | nil => simp [weave, List.map_map, Function.comp_def]
  | cons child children ih =>
    simp only [List.map_cons, weave, List.map_append]
    rw [← ih]
    simp [List.takeWhile_map, List.dropWhile_map, Function.comp_def]

theorem mem_weave {α : Type} {a : α} {index : Nat} {children : List α} {chains : List (Nat × α)} :
    a ∈ weave index children chains ↔ a ∈ children ∨ ∃ c ∈ chains, c.2 = a := by
  induction children generalizing index chains with
  | nil => simp [weave]
  | cons child children ih =>
    have hsplit : (∃ c ∈ chains, c.2 = a) ↔
        (∃ c ∈ chains.takeWhile (fun c => decide (c.1 ≤ index)), c.2 = a) ∨
          ∃ c ∈ chains.dropWhile (fun c => decide (c.1 ≤ index)), c.2 = a := by
      conv_lhs => rw [← List.takeWhile_append_dropWhile (p := fun c => decide (c.1 ≤ index))
        (l := chains)]
      simp only [List.mem_append, or_and_right, exists_or]
    rw [weave, List.mem_append, List.mem_cons, ih, hsplit, List.mem_map, List.mem_cons, or_assoc]
    exact or_left_comm.trans (or_congr_right or_left_comm)

/-- Weaving puts related items in related order. -/
theorem weave_forall₂ {α β : Type} {R : α → β → Prop} {xs : List α} {ys : List β}
    {cs : List (Nat × α)} {ds : List (Nat × β)} (h : List.Forall₂ R xs ys)
    (hc : List.Forall₂ (fun c d => c.1 = d.1 ∧ R c.2 d.2) cs ds) (index : Nat) :
    List.Forall₂ R (weave index xs cs) (weave index ys ds) := by
  have hmap (cs : List (Nat × α)) (ds : List (Nat × β))
      (hc : List.Forall₂ (fun c d => c.1 = d.1 ∧ R c.2 d.2) cs ds) :
      List.Forall₂ R (cs.map (·.2)) (ds.map (·.2)) := by
    induction hc with
    | nil => exact .nil
    | cons hcd _ ih => exact .cons hcd.2 ih
  have hpart (cs : List (Nat × α)) (ds : List (Nat × β))
      (hc : List.Forall₂ (fun c d => c.1 = d.1 ∧ R c.2 d.2) cs ds) (index : Nat) :
      List.Forall₂ R ((cs.takeWhile fun c => decide (c.1 ≤ index)).map (·.2))
          ((ds.takeWhile fun d => decide (d.1 ≤ index)).map (·.2)) ∧
        List.Forall₂ (fun c d => c.1 = d.1 ∧ R c.2 d.2)
          (cs.dropWhile fun c => decide (c.1 ≤ index))
          (ds.dropWhile fun d => decide (d.1 ≤ index)) := by
    induction hc with
    | nil => exact ⟨.nil, .nil⟩
    | @cons c d cs ds hcd hrest ih =>
      by_cases hle : c.1 ≤ index
      · have hle' : d.1 ≤ index := hcd.1 ▸ hle
        simpa [List.takeWhile_cons, List.dropWhile_cons, hle, hle'] using
          (⟨⟨hcd.2, ih.1⟩, ih.2⟩ : (R c.2 d.2 ∧ _) ∧ _)
      · have hle' : ¬ d.1 ≤ index := hcd.1 ▸ hle
        simpa [List.takeWhile_cons, List.dropWhile_cons, hle, hle'] using
          (⟨hcd, hrest⟩ : (c.1 = d.1 ∧ R c.2 d.2) ∧ _)
  induction h generalizing index cs ds with
  | nil => exact hmap cs ds hc
  | cons hxy _ ih =>
    obtain ⟨hbefore, hafter⟩ := hpart cs ds hc index
    exact List.rel_append hbefore (.cons hxy (ih hafter (index + 1)))

theorem sum_weave (index : Nat) (children : List Nat) (chains : List (Nat × Nat)) :
    (weave index children chains).sum = children.sum + (chains.map (·.2)).sum := by
  induction children generalizing index chains with
  | nil => simp [weave]
  | cons child children ih =>
    have hsplit : (chains.map (·.2)).sum =
        ((chains.takeWhile fun c => decide (c.1 ≤ index)).map (·.2)).sum +
          ((chains.dropWhile fun c => decide (c.1 ≤ index)).map (·.2)).sum := by
      rw [← List.sum_append, ← List.map_append, List.takeWhile_append_dropWhile]
    rw [weave, List.sum_append, List.sum_cons, ih, hsplit, List.sum_cons]
    omega

/-- The elements that a walk enters. -/
def entered (walk : List Event) : List Element := walk.filterMap Event.entered?

@[simp] theorem entered_append (walk more : List Event) :
    entered (walk ++ more) = entered walk ++ entered more :=
  List.filterMap_append

@[simp] theorem entered_enter (e : Element) (walk : List Event) :
    entered (.enter e :: walk) = e :: entered walk := rfl

@[simp] theorem entered_leave (e : Element) (walk : List Event) :
    entered (.leave e :: walk) = entered walk := rfl

@[simp] theorem entered_enterChain (c : Chain) (walk : List Event) :
    entered (.enterChain c :: walk) = entered walk := rfl

@[simp] theorem entered_leaveChain (c : Chain) (walk : List Event) :
    entered (.leaveChain c :: walk) = entered walk := rfl

@[simp] theorem entered_nil : entered [] = [] := rfl

theorem mem_entered_flatten {e : Element} {walks : List (List Event)} :
    e ∈ entered walks.flatten ↔ ∃ walk ∈ walks, e ∈ entered walk := by
  simp only [entered, List.mem_filterMap, List.mem_flatten]
  constructor
  · rintro ⟨event, ⟨walk, hwalk, hevent⟩, he⟩
    exact ⟨walk, hwalk, event, hevent, he⟩
  · rintro ⟨walk, hwalk, event, hevent, he⟩
    exact ⟨event, ⟨walk, hwalk, hevent⟩, he⟩

/-- A walk through an element enters it and then what its children and chains hold. -/
theorem Element.mem_entered {x e : Element} :
    e ∈ entered x.events ↔ e = x ∨ (∃ walk ∈ eventsOfNodes x.children, e ∈ entered walk) ∨
      ∃ c ∈ eventsOfChains x.chains, e ∈ entered c.2 := by
  cases x
  rw [Element.events]
  simp only [List.cons_append, entered_enter, entered_append, entered_leave, entered_nil,
    List.append_nil, List.mem_cons, mem_entered_flatten, mem_weave, or_and_right, exists_or]
  refine or_congr_right (or_congr_right ?_)
  constructor
  · rintro ⟨_, ⟨c, hc, rfl⟩, he⟩
    exact ⟨c, hc, he⟩
  · rintro ⟨c, hc, he⟩
    exact ⟨c.2, ⟨c, hc, rfl⟩, he⟩

theorem Branch.mem_entered {b : Branch} {e : Element} :
    e ∈ entered b.events ↔ ∃ walk ∈ eventsOfNodes b.children, e ∈ entered walk := by
  cases b
  rw [Branch.events]
  exact mem_entered_flatten

theorem Chain.mem_entered {c : Chain} {e : Element} :
    e ∈ entered c.events ↔ ∃ walk ∈ eventsOfBranches c.branches, e ∈ entered walk := by
  cases c
  rw [Chain.events]
  simp only [List.cons_append, entered_enterChain, entered_append, entered_leaveChain, entered_nil,
    List.append_nil]
  exact mem_entered_flatten

theorem eventsOfNodes_eq_map (ns : List Node) : eventsOfNodes ns = ns.map Node.events := by
  induction ns with
  | nil => rfl
  | cons n ns ih => rw [eventsOfNodes, ih, List.map_cons]

theorem eventsOfBranches_eq_map (bs : List Branch) :
    eventsOfBranches bs = bs.map Branch.events := by
  induction bs with
  | nil => rfl
  | cons b bs ih => rw [eventsOfBranches, ih, List.map_cons]

theorem eventsOfChains_eq_map (cs : List Chain) :
    eventsOfChains cs = cs.map fun c => (c.anchor, c.events) := by
  induction cs with
  | nil => rfl
  | cons c cs ih => rw [eventsOfChains, ih, List.map_cons]

/-- An element stands somewhere among nodes: as one of them, among the children of an element, or in
a branch of one of its chains, whether that branch is ever taken or not. -/
inductive Occurs (e : Element) : List Node → Prop
  | here {ns : List Node} (h : .element e ∈ ns) : Occurs e ns
  | child {ns : List Node} {x : Element} (hx : .element x ∈ ns) (h : Occurs e x.children) :
    Occurs e ns
  | branch {ns : List Node} {x : Element} {c : Chain} {b : Branch} (hx : .element x ∈ ns)
    (hc : c ∈ x.chains) (hb : b ∈ c.branches) (h : Occurs e b.children) : Occurs e ns

/-- A walk enters every element. -/
theorem Occurs.entered {e : Element} {ns : List Node} (h : Occurs e ns) :
    ∃ walk ∈ eventsOfNodes ns, e ∈ entered walk := by
  have hwalk {ns : List Node} {x : Element} (hx : .element x ∈ ns) :
      x.events ∈ eventsOfNodes ns := by
    rw [eventsOfNodes_eq_map]
    exact List.mem_map.mpr ⟨.element x, hx, rfl⟩
  induction h with
  | here he => exact ⟨_, hwalk he, Element.mem_entered.mpr (.inl rfl)⟩
  | child hx _ ih => exact ⟨_, hwalk hx, Element.mem_entered.mpr (.inr (.inl ih))⟩
  | @branch ns x c b hx hc hb _ ih =>
    have hbranch : e ∈ Chtl.entered b.events := Branch.mem_entered.mpr ih
    have hchain : e ∈ Chtl.entered c.events := by
      refine Chain.mem_entered.mpr ⟨b.events, ?_, hbranch⟩
      rw [eventsOfBranches_eq_map]
      exact List.mem_map_of_mem hb
    refine ⟨_, hwalk hx, Element.mem_entered.mpr (.inr (.inr ⟨(c.anchor, c.events), ?_, hchain⟩))⟩
    rw [eventsOfChains_eq_map]
    exact List.mem_map.mpr ⟨c, hc, rfl⟩

/-- The first element on a walk that a selector accepts. -/
def firstEntered (s : Selector) (walk : List Event) : Option Element :=
  (entered walk).find? s.accepts

theorem firstEntered_append (s : Selector) (walk more : List Event) :
    firstEntered s (walk ++ more) = (firstEntered s walk).or (firstEntered s more) := by
  simp [firstEntered, List.find?_append]

theorem firstFound_map_firstEntered (s : Selector) (walks : List (List Event)) :
    firstFound (walks.map (firstEntered s)) = firstEntered s walks.flatten := by
  induction walks with
  | nil => rfl
  | cons walk walks ih =>
    rw [List.flatten_cons, firstEntered_append, List.map_cons, ← ih]
    cases firstEntered s walk <;> simp [firstFound]

-- One theorem for each kind of node, along the two recursions.
mutual

theorem Node.find?_eq (s : Selector) : (n : Node) → n.find? s = firstEntered s n.events
  | .element e => by
    rw [Node.find?, Node.events]
    exact e.find?_eq s
  | .text .. => rfl
  | .comment .. => rfl
  | .placeholder .. => rfl

theorem Element.find?_eq (s : Selector) : (e : Element) → e.find? s = firstEntered s e.events
  | ⟨nodeId, tag, attributes, children, style, chains, rules, span⟩ => by
    rw [Element.find?, Element.events, findInNodes_eq, findInChains_eq, weave_map,
      firstFound_map_firstEntered]
    by_cases h : s.accepts ⟨nodeId, tag, attributes, children, style, chains, rules, span⟩ = true
    · simp [firstEntered, h]
    · simp [firstEntered, h]

theorem Branch.find?_eq (s : Selector) : (b : Branch) → b.find? s = firstEntered s b.events
  | ⟨_, _, children, _⟩ => by
    rw [Branch.find?, Branch.events, findInNodes_eq, firstFound_map_firstEntered]

theorem Chain.find?_eq (s : Selector) : (c : Chain) → c.find? s = firstEntered s c.events
  | ⟨branches, anchor⟩ => by
    rw [Chain.find?, Chain.events, findInBranches_eq, firstFound_map_firstEntered]
    simp [firstEntered]

theorem findInNodes_eq (s : Selector) :
    (ns : List Node) → findInNodes s ns = (eventsOfNodes ns).map (firstEntered s)
  | [] => rfl
  | n :: ns => by rw [findInNodes, eventsOfNodes, List.map_cons, n.find?_eq, findInNodes_eq]

theorem findInBranches_eq (s : Selector) :
    (bs : List Branch) → findInBranches s bs = (eventsOfBranches bs).map (firstEntered s)
  | [] => rfl
  | b :: bs => by
    rw [findInBranches, eventsOfBranches, List.map_cons, b.find?_eq, findInBranches_eq]

theorem findInChains_eq (s : Selector) :
    (cs : List Chain) →
      findInChains s cs = (eventsOfChains cs).map fun c => (c.1, firstEntered s c.2)
  | [] => rfl
  | c :: cs => by
    rw [findInChains, eventsOfChains, List.map_cons, c.find?_eq, findInChains_eq]

end

namespace Document

/-- A search finds the first element in document order that the selector accepts. -/
theorem find?_eq_find?_elements (d : Document) (s : Selector) :
    d.find? s = d.elements.find? s.accepts := by
  rw [find?, findInNodes_eq, firstFound_map_firstEntered]
  rfl

theorem mem_elements_of_find? {d : Document} {s : Selector} {e : Element}
    (h : d.find? s = some e) : e ∈ d.elements := by
  rw [find?_eq_find?_elements] at h
  exact List.mem_of_find?_eq_some h

end Document

end Chtl
