import Chtl.Proofs.Document.Taken

/-!
# Visitors

A visitor goes through a document and changes a state on its way. What it does at a document, a
node, an element or a chain is its own choice, the walk through the content included: it may do
something before and after that walk, and it may leave it out. A relation between changes of the
state and walks that a visitor keeps at each step holds of its whole visit and the events of the
document. So every visitor that leaves nothing out comes to the elements in the order of the
document, and the one that looks for an element, and is still taken to others after it has found
one, ends with the first.
-/

set_option autoImplicit false
set_option linter.all false

namespace Chtl

/-- What is done on the way through a document. Where nothing is said the walk just goes on. -/
structure Visitor (σ : Type) where
  document : Document → (walk : σ → σ) → σ → σ := fun _ walk => walk
  node : Node → (walk : σ → σ) → σ → σ := fun _ walk => walk
  element : Element → (walk : σ → σ) → σ → σ := fun _ walk => walk
  chain : Chain → (walk : σ → σ) → σ → σ := fun _ walk => walk
  text : (value : String) → Span → σ → σ := fun _ _ => id
  comment : (value : String) → Span → σ → σ := fun _ _ => id
  placeholder : Placeholder → FragmentKind → Span → σ → σ := fun _ _ _ => id

section

variable {σ : Type}

/-! ## The walk -/

/-- Runs one step after the other. -/
def runAll (steps : List (σ → σ)) (s : σ) : σ := steps.foldl (fun s step => step s) s

/-- Runs the steps that are anchored in front of a child, up to the first one that is not. That one
and those behind it wait. -/
def runAnchored (index : Nat) : List (Nat × (σ → σ)) → σ → List (Nat × (σ → σ)) × σ
  | [], s => ([], s)
  | c :: cs, s => if c.1 ≤ index then runAnchored index cs (c.2 s) else (c :: cs, s)

/-- Runs the steps of the children, before each the chains that are anchored in front of it, and in
the end the chains that are left. -/
def runInTurn : (index : Nat) → (children : List (σ → σ)) → (chains : List (Nat × (σ → σ))) → σ → σ
  | _, [], chains, s => runAll (chains.map (·.2)) s
  | index, child :: children, chains, s =>
    let (waiting, s) := runAnchored index chains s
    runInTurn (index + 1) children waiting (child s)

mutual

def Node.visit (v : Visitor σ) : Node → σ → σ
  | .element e => v.node (.element e) (v.element e (e.walk v))
  | .text value span => v.node (.text value span) (v.text value span)
  | .comment value span => v.node (.comment value span) (v.comment value span)
  | .placeholder p kind span => v.node (.placeholder p kind span) (v.placeholder p kind span)

def Element.walk (v : Visitor σ) : Element → σ → σ
  | ⟨_, _, _, children, _, chains, _, _⟩ =>
    runInTurn 0 (visitsOfNodes v children) (visitsOfChains v chains)

def Branch.walk (v : Visitor σ) : Branch → σ → σ
  | ⟨_, _, children, _⟩ => runAll (visitsOfNodes v children)

def Chain.visit (v : Visitor σ) : Chain → σ → σ
  | ⟨branches, anchor⟩ => v.chain ⟨branches, anchor⟩ (runAll (walksOfBranches v branches))

def visitsOfNodes (v : Visitor σ) : List Node → List (σ → σ)
  | [] => []
  | n :: ns => n.visit v :: visitsOfNodes v ns

def walksOfBranches (v : Visitor σ) : List Branch → List (σ → σ)
  | [] => []
  | b :: bs => b.walk v :: walksOfBranches v bs

def visitsOfChains (v : Visitor σ) : List Chain → List (Nat × (σ → σ))
  | [] => []
  | c :: cs => (c.anchor, c.visit v) :: visitsOfChains v cs

end

def Document.visit (v : Visitor σ) (d : Document) : σ → σ :=
  v.document d (runAll (visitsOfNodes v d.children))

theorem runAll_append (steps more : List (σ → σ)) (s : σ) :
    runAll (steps ++ more) s = runAll more (runAll steps s) :=
  List.foldl_append

theorem runAnchored_eq (index : Nat) (chains : List (Nat × (σ → σ))) (s : σ) :
    runAnchored index chains s =
      (chains.dropWhile fun c => decide (c.1 ≤ index),
        runAll ((chains.takeWhile fun c => decide (c.1 ≤ index)).map (·.2)) s) := by
  induction chains generalizing s with
  | nil => rfl
  | cons c cs ih =>
    rw [runAnchored]
    by_cases hle : c.1 ≤ index
    · simp [hle, ih, runAll]
    · simp [hle, runAll]

/-- The walk through an element runs its steps in the order of the document. -/
theorem runInTurn_eq (index : Nat) (children : List (σ → σ)) (chains : List (Nat × (σ → σ)))
    (s : σ) : runInTurn index children chains s = runAll (weave index children chains) s := by
  induction children generalizing index chains s with
  | nil => rfl
  | cons child children ih =>
    rw [runInTurn, runAnchored_eq, weave, runAll_append]
    exact ih _ _ _

/-! ## What a visit keeps -/

/-- A relation between changes of the state and walks that the visitor keeps at each step. -/
structure Visitor.Follows (v : Visitor σ) (R : (σ → σ) → List Event → Prop) : Prop where
  nothing : R id []
  append {f g : σ → σ} {walk more : List Event} (hf : R f walk) (hg : R g more) :
    R (g ∘ f) (walk ++ more)
  document (d : Document) {f : σ → σ} {walk : List Event} (hf : R f walk) : R (v.document d f) walk
  node (n : Node) {f : σ → σ} {walk : List Event} (hf : R f walk) : R (v.node n f) walk
  element (e : Element) {f : σ → σ} {walk : List Event} (hf : R f walk) :
    R (v.element e f) (.enter e :: walk ++ [.leave e])
  chain (c : Chain) {f : σ → σ} {walk : List Event} (hf : R f walk) :
    R (v.chain c f) (.enterChain c :: walk ++ [.leaveChain c])
  text (value : String) (span : Span) : R (v.text value span) [.text value]
  comment (value : String) (span : Span) : R (v.comment value span) [.comment value]
  placeholder (p : Placeholder) (kind : FragmentKind) (span : Span) :
    R (v.placeholder p kind span) [.placeholder p]

section

variable {v : Visitor σ} {R : (σ → σ) → List Event → Prop}

namespace Visitor.Follows

theorem all (h : v.Follows R) {steps : List (σ → σ)} {walks : List (List Event)}
    (hsteps : List.Forall₂ R steps walks) : R (runAll steps) walks.flatten := by
  induction hsteps with
  | nil => exact h.nothing
  | @cons step walk steps walks hstep _ ih =>
    have hcons : runAll (step :: steps) = runAll steps ∘ step := rfl
    rw [hcons]
    exact h.append hstep ih

theorem inTurn (h : v.Follows R) {children : List (σ → σ)} {walks : List (List Event)}
    (hchildren : List.Forall₂ R children walks) {chains : List (Nat × (σ → σ))}
    {chainWalks : List (Nat × List Event)}
    (hchains : List.Forall₂ (fun c w => c.1 = w.1 ∧ R c.2 w.2) chains chainWalks) (index : Nat) :
    R (runInTurn index children chains) (weave index walks chainWalks).flatten := by
  rw [funext (runInTurn_eq index children chains)]
  exact h.all (weave_forall₂ hchildren hchains index)

end Visitor.Follows

-- One theorem for each kind of node, along the two recursions.
mutual

theorem Node.visit_follows (h : v.Follows R) : (n : Node) → R (n.visit v) n.events
  | .element e => by
    rw [Node.visit, Node.events]
    exact h.node _ (e.visit_follows h)
  | .text value span => h.node _ (h.text value span)
  | .comment value span => h.node _ (h.comment value span)
  | .placeholder p kind span => h.node _ (h.placeholder p kind span)

theorem Element.visit_follows (h : v.Follows R) :
    (e : Element) → R (v.element e (e.walk v)) e.events
  | ⟨nodeId, tag, attributes, children, style, chains, rules, span⟩ => by
    rw [Element.walk, Element.events]
    exact h.element _
      (h.inTurn (visitsOfNodes_follow h children) (visitsOfChains_follow h chains) 0)

theorem Branch.walk_follows (h : v.Follows R) : (b : Branch) → R (b.walk v) b.events
  | ⟨_, _, children, _⟩ => by
    rw [Branch.walk, Branch.events]
    exact h.all (visitsOfNodes_follow h children)

theorem Chain.visit_follows (h : v.Follows R) : (c : Chain) → R (c.visit v) c.events
  | ⟨branches, anchor⟩ => by
    rw [Chain.visit, Chain.events]
    exact h.chain _ (h.all (walksOfBranches_follow h branches))

theorem visitsOfNodes_follow (h : v.Follows R) :
    (ns : List Node) → List.Forall₂ R (visitsOfNodes v ns) (eventsOfNodes ns)
  | [] => .nil
  | n :: ns => .cons (n.visit_follows h) (visitsOfNodes_follow h ns)

theorem walksOfBranches_follow (h : v.Follows R) :
    (bs : List Branch) → List.Forall₂ R (walksOfBranches v bs) (eventsOfBranches bs)
  | [] => .nil
  | b :: bs => .cons (b.walk_follows h) (walksOfBranches_follow h bs)

theorem visitsOfChains_follow (h : v.Follows R) :
    (cs : List Chain) → List.Forall₂ (fun c w => c.1 = w.1 ∧ R c.2 w.2)
      (visitsOfChains v cs) (eventsOfChains cs)
  | [] => .nil
  | c :: cs => .cons ⟨rfl, c.visit_follows h⟩ (visitsOfChains_follow h cs)

end

/-- What a visitor keeps at each step holds of its visit and the events of the document. -/
theorem Document.visit_follows (h : v.Follows R) (d : Document) : R (d.visit v) d.events :=
  h.document d (h.all (visitsOfNodes_follow h d.children))

end

namespace Visitor

/-! ## Visitors that leave nothing out -/

/-- The visitor takes the walk through whatever it comes to, once, and its state holds notes of what
it meets. It may do with the rest of the state as it likes. -/
structure Notes {α : Type} (v : Visitor σ) (note : Event → Option α) (noted : σ → List α) :
    Prop where
  document (d : Document) (walk : σ → σ) (s : σ) : ∃ inside, noted inside = noted s ∧
    noted (v.document d walk s) = noted (walk inside)
  node (n : Node) (walk : σ → σ) (s : σ) : ∃ inside, noted inside = noted s ∧
    noted (v.node n walk s) = noted (walk inside)
  element (e : Element) (walk : σ → σ) (s : σ) : ∃ inside,
    noted inside = noted s ++ (note (.enter e)).toList ∧
    noted (v.element e walk s) = noted (walk inside) ++ (note (.leave e)).toList
  chain (c : Chain) (walk : σ → σ) (s : σ) : ∃ inside,
    noted inside = noted s ++ (note (.enterChain c)).toList ∧
    noted (v.chain c walk s) = noted (walk inside) ++ (note (.leaveChain c)).toList
  text (value : String) (span : Span) (s : σ) :
    noted (v.text value span s) = noted s ++ (note (.text value)).toList
  comment (value : String) (span : Span) (s : σ) :
    noted (v.comment value span s) = noted s ++ (note (.comment value)).toList
  placeholder (p : Placeholder) (kind : FragmentKind) (span : Span) (s : σ) :
    noted (v.placeholder p kind span s) = noted s ++ (note (.placeholder p)).toList

section

variable {α : Type} {v : Visitor σ} {note : Event → Option α} {noted : σ → List α}

theorem Notes.follows (h : v.Notes note noted) :
    v.Follows fun f walk => ∀ s, noted (f s) = noted s ++ walk.filterMap note where
  nothing s := (List.append_nil _).symm
  append hf hg s := by rw [Function.comp_apply, hg, hf, List.filterMap_append, List.append_assoc]
  document d f walk hf s := by
    obtain ⟨inside, hinside, hdone⟩ := h.document d f s
    rw [hdone, hf, hinside]
  node n f walk hf s := by
    obtain ⟨inside, hinside, hdone⟩ := h.node n f s
    rw [hdone, hf, hinside]
  element e f walk hf s := by
    obtain ⟨inside, hinside, hdone⟩ := h.element e f s
    rw [hdone, hf, hinside]
    simp [List.filterMap_eq_flatMap_toList]
  chain c f walk hf s := by
    obtain ⟨inside, hinside, hdone⟩ := h.chain c f s
    rw [hdone, hf, hinside]
    simp [List.filterMap_eq_flatMap_toList]
  text value span s := by simp [h.text, List.filterMap_eq_flatMap_toList]
  comment value span s := by simp [h.comment, List.filterMap_eq_flatMap_toList]
  placeholder p kind span s := by simp [h.placeholder, List.filterMap_eq_flatMap_toList]

/-- The notes of a visit are those of the events of the document, in their order. -/
theorem Notes.noted_visit (h : v.Notes note noted) (d : Document) (s : σ) :
    noted (d.visit v s) = noted s ++ d.events.filterMap note :=
  Document.visit_follows h.follows d s

end

/-- Collects the elements that it comes to. -/
def collector : Visitor (List Element) where
  element e walk seen := walk (seen ++ [e])

theorem collector_notes : collector.Notes Event.entered? id where
  document _ _ seen := ⟨seen, rfl, rfl⟩
  node _ _ seen := ⟨seen, rfl, rfl⟩
  element e _ seen := ⟨seen ++ [e], rfl, (List.append_nil _).symm⟩
  chain _ _ seen := ⟨seen, (List.append_nil _).symm, (List.append_nil _).symm⟩
  text _ _ _ := (List.append_nil _).symm
  comment _ _ _ := (List.append_nil _).symm
  placeholder _ _ _ _ := (List.append_nil _).symm

/-! ## The visitor that looks for an element -/

/-- Looks for an element. With one found it passes over every other that it is still taken to. -/
def finder (s : Selector) : Visitor (Option Element) where
  element e walk found :=
    if found.isSome then found
    else if s.accepts e then some e
    else walk found

theorem firstEntered_single (s : Selector) {event : Event} (h : event.entered? = none) :
    firstEntered s [event] = none := by
  simp [firstEntered, entered, h]

/-- What is found stays found, and as long as nothing is, the first element on a walk will be. -/
theorem finder_follows (s : Selector) :
    (finder s).Follows fun f walk => ∀ found, f found = found.or (firstEntered s walk) where
  nothing found := Option.or_none.symm
  append hf hg found := by rw [Function.comp_apply, hg, hf, firstEntered_append, Option.or_assoc]
  document _ _ _ hf := hf
  node _ _ _ hf := hf
  element e f walk hf found := by
    -- the walk inside is taken only from an element that is not accepted, with nothing found before
    cases found with
    | some _ => rfl
    | none => by_cases h : s.accepts e <;> simp [finder, firstEntered, h, hf]
  chain c f walk hf found := by
    have hwalk : firstEntered s (Event.enterChain c :: walk ++ [Event.leaveChain c]) =
        firstEntered s walk := by
      simp [firstEntered]
    rw [hwalk]
    exact hf found
  text _ _ found := by rw [firstEntered_single s rfl, Option.or_none]; rfl
  comment _ _ found := by rw [firstEntered_single s rfl, Option.or_none]; rfl
  placeholder _ _ _ found := by rw [firstEntered_single s rfl, Option.or_none]; rfl

end Visitor

namespace Document

/-- The visitor that looks for an element ends with what a search finds. -/
theorem visit_finder (d : Document) (s : Selector) : d.visit (.finder s) none = d.find? s := by
  rw [d.visit_follows (Visitor.finder_follows s) none, Option.none_or, find?_eq_find?_elements]
  rfl

/-- Every visitor that leaves nothing out comes to the same elements in the same order, to all that
stand in the document. A search, also as a visit that goes on behind what it has found, gives the
first of them that the selector accepts, and nothing exactly if there is none. -/
theorem finds_first_visited {v : Visitor σ} {seen : σ → List Element}
    (h : v.Notes Event.entered? seen) (d : Document) (selector : Selector) (s : σ) :
    seen (d.visit v s) = seen s ++ d.elements ∧
      (∀ e, e ∈ d.elements ↔ Occurs e d.children) ∧
      d.visit (.finder selector) none = d.find? selector ∧
      (∀ e, d.find? selector = some e ↔ ∃ before behind, d.elements = before ++ e :: behind ∧
        selector.accepts e ∧ ∀ x ∈ before, ¬ selector.accepts x) ∧
      (d.find? selector = none ↔ ∀ x ∈ d.elements, ¬ selector.accepts x) := by
  refine ⟨h.noted_visit d s, fun e => mem_entered_iff_occurs, d.visit_finder selector, ?_, ?_⟩
  · intro e
    rw [find?_eq_find?_elements, List.find?_eq_some_iff_append]
    constructor
    · rintro ⟨haccepts, before, behind, hsplit, hbefore⟩
      exact ⟨before, behind, hsplit, haccepts, fun x hx => by simpa using hbefore x hx⟩
    · rintro ⟨before, behind, hsplit, haccepts, hbefore⟩
      exact ⟨haccepts, before, behind, hsplit, fun x hx => by simpa using hbefore x hx⟩
  · rw [find?_eq_find?_elements, List.find?_eq_none]

/-- A `p` stands in a branch, in front of a child that is a `p` as well, and one follows behind. -/
def withBranch : Document where
  children := [
    .element {
      nodeId := 0, tag := "div", span := .point 0
      children := [
        .element { nodeId := 1, tag := "h1", span := .point 1 },
        .element { nodeId := 2, tag := "p", span := .point 2 }]
      chains := [⟨[
        ⟨some ⟨.dynamic "open" (.point 3), "\x7b\x7bopen\x7d\x7d"⟩, [], [], .point 3⟩,
        ⟨none, [], [.element { nodeId := 3, tag := "p", span := .point 4 }], .point 4⟩], 1⟩] },
    .element { nodeId := 4, tag := "p", span := .point 5 }]

theorem finds_first_visited_branch :
    Visitor.collector.Notes Event.entered? id ∧
      (withBranch.visit .collector []).map (·.nodeId) = [0, 1, 3, 2, 4] ∧
      (withBranch.visit (.finder (.tag "p")) none).map (·.nodeId) = some 3 ∧
      withBranch.find? (.tag "b") = none := by
  obtain ⟨hseen, -, hfinder, -, -⟩ :=
    finds_first_visited Visitor.collector_notes withBranch (.tag "p") []
  obtain ⟨-, -, -, -, hnone⟩ :=
    finds_first_visited Visitor.collector_notes withBranch (.tag "b") []
  have hvisit : withBranch.visit .collector [] = withBranch.elements := hseen
  refine ⟨Visitor.collector_notes, ?_, ?_, hnone.mpr (by decide)⟩
  · rw [hvisit]
    decide
  · rw [hfinder]
    decide

end Document

end

end Chtl
