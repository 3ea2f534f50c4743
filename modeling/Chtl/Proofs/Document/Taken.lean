import Chtl.Proofs.Document.Numbers
import Chtl.Style.Resolve

/-!
# Elements that a static chain leaves out

Of the branches of a static chain at most one is taken, and what stands inside the others is left
out, at whatever depth. A walk that notes at each element whether it is shown goes through the same
elements as the walk through the document, so what is shown keeps the order of the document.
-/

set_option autoImplicit false
set_option linter.all false

namespace Chtl

/-- For each chain of an element the branch that fired. -/
abbrev Firing := Element → List (Option Nat)

/-- What a new resolver of the document reports. Nothing fires in an element without a style. -/
def Document.firing (d : Document) : Firing := fun e =>
  match ((d.resolver.resolve e).run.run {}).1 with
  | .ok resolved => resolved.fired
  | .error _ => []

/-- A branch of a static chain of an element that did not fire. -/
def Element.Unfired (firing : Firing) (x : Element) (b : Branch) : Prop :=
  ∃ (i : Nat) (c : Chain) (k : Nat), x.chains[i]? = some c ∧ c.isDynamic = false ∧
    c.branches[k]? = some b ∧ (firing x)[i]? ≠ some (some k)

/-- The element stands somewhere inside a branch of a static chain that did not fire. -/
def LeftOut (firing : Firing) (ns : List Node) (e : Element) : Prop :=
  ∃ x b, Occurs x ns ∧ x.Unfired firing b ∧ Occurs e b.children

def Document.LeftOut (d : Document) (e : Element) : Prop := Chtl.LeftOut d.firing d.children e

section

variable (firing : Firing)

mutual

/-- The elements that a walk enters, each with the note whether it is shown. -/
def Node.noted : Node → List (Element × Bool)
  | .element e => e.noted
  | .text _ _ | .comment _ _ | .placeholder _ _ _ => []

def Element.noted : Element → List (Element × Bool)
  | ⟨nodeId, tag, attributes, children, style, chains, rules, span⟩ =>
    let e : Element := ⟨nodeId, tag, attributes, children, style, chains, rules, span⟩
    (e, true) :: (weave 0 (notedOfNodes children) (notedOfChains chains (firing e))).flatten

/-- Nothing in a branch that is not taken is shown. -/
def Branch.noted (taken : Bool) : Branch → List (Element × Bool)
  | ⟨_, _, children, _⟩ =>
    if taken then (notedOfNodes children).flatten
    else (entered (eventsOfNodes children).flatten).map (·, false)

/-- All branches of a dynamic chain are taken, of a static chain the one that fired. -/
def Chain.noted (first : Option Nat) : Chain → List (Element × Bool)
  | ⟨branches, _⟩ =>
    (notedOfBranches (fun k => branches.any Branch.isDynamic || first == some k) branches).flatten

def notedOfNodes : List Node → List (List (Element × Bool))
  | [] => []
  | n :: ns => n.noted :: notedOfNodes ns

def notedOfBranches (taken : Nat → Bool) : List Branch → List (List (Element × Bool))
  | [] => []
  | b :: bs => b.noted (taken 0) :: notedOfBranches (fun k => taken (k + 1)) bs

def notedOfChains : List Chain → List (Option Nat) → List (Nat × List (Element × Bool))
  | [], _ => []
  | c :: cs, fired => (c.anchor, c.noted fired.head?.join) :: notedOfChains cs fired.tail

end

/-! ## The same walk -/

-- One theorem for each kind of node, along the two recursions.
mutual

theorem Node.map_fst_noted : (n : Node) → (n.noted firing).map (·.1) = entered n.events
  | .element e => by
    rw [Node.noted, Node.events]
    exact e.map_fst_noted
  | .text .. => rfl
  | .comment .. => rfl
  | .placeholder .. => rfl

theorem Element.map_fst_noted : (e : Element) → (e.noted firing).map (·.1) = entered e.events
  | ⟨nodeId, tag, attributes, children, style, chains, rules, span⟩ => by
    rw [Element.noted, Element.events]
    simp only [List.map_cons, List.cons_append, entered_enter, entered_append, entered_leave,
      entered_nil, List.append_nil, List.map_flatten, entered_flatten]
    rw [← weave_map, List.flatMap_def, ← weave_map, map_fst_notedOfNodes, map_fst_notedOfChains]

theorem Branch.map_fst_noted (taken : Bool) : (b : Branch) →
    (b.noted firing taken).map (·.1) = entered b.events
  | ⟨_, _, children, _⟩ => by
    rw [Branch.noted, Branch.events]
    split_ifs
    · rw [List.map_flatten, map_fst_notedOfNodes, entered_flatten, List.flatMap_def]
    · simp [Function.comp_def]

theorem Chain.map_fst_noted (first : Option Nat) : (c : Chain) →
    (c.noted firing first).map (·.1) = entered c.events
  | ⟨branches, anchor⟩ => by
    rw [Chain.noted, Chain.events, List.map_flatten, map_fst_notedOfBranches]
    simp only [List.cons_append, entered_enterChain, entered_append, entered_leaveChain,
      entered_nil, List.append_nil, entered_flatten, List.flatMap_def]

theorem map_fst_notedOfNodes : (ns : List Node) →
    (notedOfNodes firing ns).map (·.map (·.1)) = (eventsOfNodes ns).map entered
  | [] => rfl
  | n :: ns => by
    rw [notedOfNodes, eventsOfNodes, List.map_cons, List.map_cons, n.map_fst_noted,
      map_fst_notedOfNodes]

theorem map_fst_notedOfBranches (taken : Nat → Bool) : (bs : List Branch) →
    (notedOfBranches firing taken bs).map (·.map (·.1)) = (eventsOfBranches bs).map entered
  | [] => rfl
  | b :: bs => by
    rw [notedOfBranches, eventsOfBranches, List.map_cons, List.map_cons, b.map_fst_noted,
      map_fst_notedOfBranches]

theorem map_fst_notedOfChains : (cs : List Chain) → (fired : List (Option Nat)) →
    (notedOfChains firing cs fired).map (fun c => (c.1, c.2.map (·.1))) =
      (eventsOfChains cs).map fun c => (c.1, entered c.2)
  | [], _ => rfl
  | c :: cs, fired => by
    rw [notedOfChains, eventsOfChains, List.map_cons, List.map_cons, c.map_fst_noted,
      map_fst_notedOfChains]

end

/-! ## What is left out -/

theorem notedOfNodes_eq_map (ns : List Node) :
    notedOfNodes firing ns = ns.map (Node.noted firing) := by
  induction ns with
  | nil => rfl
  | cons n ns ih => rw [notedOfNodes, ih, List.map_cons]

theorem notedOfBranches_eq_mapIdx (taken : Nat → Bool) (bs : List Branch) :
    notedOfBranches firing taken bs = bs.mapIdx fun k b => b.noted firing (taken k) := by
  induction bs generalizing taken with
  | nil => rfl
  | cons b bs ih => rw [notedOfBranches, ih, List.mapIdx_cons]

theorem notedOfChains_eq_mapIdx (cs : List Chain) (fired : List (Option Nat)) :
    notedOfChains firing cs fired =
      cs.mapIdx fun i c => (c.anchor, c.noted firing fired[i]?.join) := by
  induction cs generalizing fired with
  | nil => rfl
  | cons c cs ih =>
    rw [notedOfChains, ih, List.mapIdx_cons, List.head?_eq_getElem?]
    simp only [List.getElem?_tail]

variable {firing} {e : Element} {shown : Bool}

theorem Element.mem_noted {x : Element} :
    (e, shown) ∈ x.noted firing ↔ (e = x ∧ shown = true) ∨
      (∃ n ∈ x.children, (e, shown) ∈ n.noted firing) ∨
      ∃ (i : Nat) (c : Chain), x.chains[i]? = some c ∧
        (e, shown) ∈ c.noted firing (firing x)[i]?.join := by
  cases x
  rw [Element.noted, notedOfNodes_eq_map, notedOfChains_eq_mapIdx]
  simp only [List.mem_cons, List.mem_flatten, mem_weave, List.mem_map, List.mem_mapIdx,
    or_and_right, exists_or, Prod.mk.injEq]
  refine or_congr_right (or_congr ?_ ?_)
  · simp
  · constructor
    · rintro ⟨_, ⟨_, ⟨i, hi, rfl⟩, rfl⟩, he⟩
      exact ⟨i, _, List.getElem?_eq_getElem hi, he⟩
    · rintro ⟨i, c, hc, he⟩
      obtain ⟨hi, rfl⟩ := List.getElem?_eq_some_iff.mp hc
      exact ⟨_, ⟨_, ⟨i, hi, rfl⟩, rfl⟩, he⟩

theorem Chain.mem_noted {c : Chain} {first : Option Nat} :
    (e, shown) ∈ c.noted firing first ↔ ∃ (k : Nat) (b : Branch), c.branches[k]? = some b ∧
      (e, shown) ∈ b.noted firing (c.isDynamic || first == some k) := by
  obtain ⟨branches, anchor⟩ := c
  rw [noted, notedOfBranches_eq_mapIdx]
  simp only [List.mem_flatten, List.mem_mapIdx, isDynamic]
  constructor
  · rintro ⟨_, ⟨k, hk, rfl⟩, he⟩
    exact ⟨k, _, List.getElem?_eq_getElem hk, he⟩
  · rintro ⟨k, b, hb, he⟩
    obtain ⟨hk, rfl⟩ := List.getElem?_eq_some_iff.mp hb
    exact ⟨_, ⟨k, hk, rfl⟩, he⟩

theorem Branch.mem_noted_true {b : Branch} :
    (e, shown) ∈ b.noted firing true ↔ ∃ n ∈ b.children, (e, shown) ∈ n.noted firing := by
  cases b
  simp [noted, notedOfNodes_eq_map]

/-! ### Where elements stand -/

theorem Occurs.mono {ns more : List Node} (h : Occurs e ns) (hmore : ns ⊆ more) :
    Occurs e more := by
  cases h with
  | here he => exact .here (hmore he)
  | child hx h => exact .child (hmore hx) h
  | branch hx hc hb h => exact .branch (hmore hx) hc hb h

/-- What stands in a branch of an element stands where the element does. -/
theorem Occurs.inside {ns : List Node} {x : Element} {c : Chain} {b : Branch} (h : Occurs x ns)
    (hc : c ∈ x.chains) (hb : b ∈ c.branches) (he : Occurs e b.children) : Occurs e ns := by
  induction h with
  | here hx => exact .branch hx hc hb he
  | child hy _ ih => exact .child hy ih
  | branch hy hc' hb' _ ih => exact .branch hy hc' hb' ih

/-- A walk through a node enters only what stands there. -/
theorem Node.occurs_of_mem_entered (n : Node) : ∀ e ∈ entered n.events, Occurs e [n] := by
  induction n using Node.induction with
  | element x hchildren hchains =>
    intro e he
    rw [Node.events] at he
    have hx : Node.element x ∈ [Node.element x] := List.mem_singleton_self _
    rcases Element.mem_entered.mp he with rfl | ⟨walk, hwalk, he⟩ | ⟨walk, hwalk, he⟩
    · exact .here hx
    · rw [eventsOfNodes_eq_map] at hwalk
      obtain ⟨n, hn, rfl⟩ := List.mem_map.mp hwalk
      exact .child hx ((hchildren n hn e he).mono (by simpa using hn))
    · rw [eventsOfChains_eq_map] at hwalk
      obtain ⟨c, hc, rfl⟩ := List.mem_map.mp hwalk
      rw [Chain.entered_events] at he
      obtain ⟨b, hb, he⟩ := List.mem_flatMap.mp he
      obtain ⟨n, hn, he⟩ := List.mem_flatMap.mp he
      exact .branch hx hc hb ((hchains c hc b hb n hn e he).mono (by simpa using hn))
  | text | comment | placeholder =>
    intro e he
    cases he

theorem mem_entered_iff_occurs {ns : List Node} :
    e ∈ entered (eventsOfNodes ns).flatten ↔ Occurs e ns := by
  rw [mem_entered_flatten]
  constructor
  · rintro ⟨walk, hwalk, he⟩
    rw [eventsOfNodes_eq_map] at hwalk
    obtain ⟨n, hn, rfl⟩ := List.mem_map.mp hwalk
    exact (n.occurs_of_mem_entered e he).mono (by simpa using hn)
  · exact Occurs.entered

theorem Branch.mem_noted_false {b : Branch} :
    (e, shown) ∈ b.noted firing false ↔ Occurs e b.children ∧ shown = false := by
  cases b
  simp [noted, mem_entered_iff_occurs, eq_comm]

/-! ### The notes tell what is left out -/

theorem LeftOut.mono {ns more : List Node} (h : LeftOut firing ns e) (hmore : ns ⊆ more) :
    LeftOut firing more e := by
  obtain ⟨x, b, hx, hrest⟩ := h
  exact ⟨x, b, hx.mono hmore, hrest⟩

theorem Node.leftOut_of_mem_noted (n : Node) :
    ∀ e, (e, false) ∈ n.noted firing → LeftOut firing [n] e := by
  induction n using Node.induction with
  | element x hchildren hchains =>
    intro e he
    rw [Node.noted] at he
    have hx : Node.element x ∈ [Node.element x] := List.mem_singleton_self _
    rcases Element.mem_noted.mp he with ⟨-, ⟨⟩⟩ | ⟨n, hn, he⟩ | ⟨i, c, hc, he⟩
    · obtain ⟨y, b, hy, hrest⟩ := (hchildren n hn e he).mono (by simpa using hn)
      exact ⟨y, b, .child hx hy, hrest⟩
    · obtain ⟨k, b, hb, he⟩ := Chain.mem_noted.mp he
      cases htaken : c.isDynamic || (firing x)[i]?.join == some k with
      | true =>
        rw [htaken] at he
        obtain ⟨n, hn, he⟩ := Branch.mem_noted_true.mp he
        have hc := List.mem_of_getElem? hc
        have hb := List.mem_of_getElem? hb
        obtain ⟨y, b', hy, hrest⟩ := (hchains c hc b hb n hn e he).mono (by simpa using hn)
        exact ⟨y, b', .branch hx hc hb hy, hrest⟩
      | false =>
        rw [htaken] at he
        obtain ⟨hstatic, hfirst⟩ := Bool.or_eq_false_iff.mp htaken
        refine ⟨x, b, .here hx, ⟨i, c, k, hc, hstatic, hb, fun h => ?_⟩,
          (Branch.mem_noted_false.mp he).1⟩
        simp [h] at hfirst
  | text | comment | placeholder =>
    intro e he
    cases he

/-- The walk notes of an element that it is not shown exactly if it is left out. -/
theorem leftOut_iff_noted {ns : List Node} :
    LeftOut firing ns e ↔ ∃ n ∈ ns, (e, false) ∈ n.noted firing := by
  constructor
  · rintro ⟨x, b, hx, hunfired, he⟩
    induction hx with
    | @here ns hx =>
      obtain ⟨i, c, k, hc, hstatic, hb, hfires⟩ := hunfired
      refine ⟨.element x, hx, Element.mem_noted.mpr (.inr (.inr ⟨i, c, hc, ?_⟩))⟩
      have htaken : (c.isDynamic || (firing x)[i]?.join == some k) = false := by
        rw [hstatic, Bool.false_or, beq_eq_false_iff_ne, ne_eq, Option.join_eq_some_iff]
        exact hfires
      refine Chain.mem_noted.mpr ⟨k, b, hb, ?_⟩
      rw [htaken]
      exact Branch.mem_noted_false.mpr ⟨he, rfl⟩
    | child hy _ ih => exact ⟨_, hy, Element.mem_noted.mpr (.inr (.inl ih))⟩
    | @branch ns y c b' hy hc hb' hx ih =>
      obtain ⟨i, hi⟩ := List.getElem?_of_mem hc
      obtain ⟨k, hk⟩ := List.getElem?_of_mem hb'
      refine ⟨_, hy, Element.mem_noted.mpr (.inr (.inr ⟨i, c, hi, Chain.mem_noted.mpr
        ⟨k, b', hk, ?_⟩⟩))⟩
      cases c.isDynamic || (firing y)[i]?.join == some k with
      | true => exact Branch.mem_noted_true.mpr ih
      | false =>
        -- The branch is not taken, so all that stands in it is left out with it.
        obtain ⟨_, c', _, hc', -, hb, -⟩ := hunfired
        exact Branch.mem_noted_false.mpr
          ⟨hx.inside (List.mem_of_getElem? hc') (List.mem_of_getElem? hb) he, rfl⟩
  · rintro ⟨n, hn, he⟩
    exact (n.leftOut_of_mem_noted e he).mono (by simpa using hn)

end

/-! ## What is shown -/

/-- The elements that a walk notes as shown. -/
def shownOf (notes : List (Element × Bool)) : List Element :=
  notes.filterMap fun note => if note.2 then some note.1 else none

@[simp] theorem shownOf_append (notes more : List (Element × Bool)) :
    shownOf (notes ++ more) = shownOf notes ++ shownOf more :=
  List.filterMap_append

open Classical in
/-- If no element is noted twice, the shown ones are those that are not noted as left out. -/
theorem shownOf_eq_filter {notes : List (Element × Bool)} (h : (notes.map (·.1)).Nodup) :
    shownOf notes = (notes.map (·.1)).filter fun e => (e, false) ∉ notes := by
  induction notes with
  | nil => rfl
  | cons note notes ih =>
    obtain ⟨e, shown⟩ := note
    obtain ⟨hnew, hrest⟩ := List.nodup_cons.mp h
    have hlater : (notes.map (·.1)).filter (fun x => (x, false) ∉ (e, shown) :: notes) =
        (notes.map (·.1)).filter fun x => (x, false) ∉ notes := by
      refine List.filter_congr fun x hx => ?_
      have hne : x ≠ e := fun heq => hnew (heq ▸ hx)
      simp [hne]
    have hnone : (e, false) ∉ notes := fun hmem => hnew (List.mem_map.mpr ⟨_, hmem, rfl⟩)
    rw [List.map_cons, List.filter_cons, hlater, ← ih hrest]
    cases shown <;> simp [shownOf, hnone]

end Chtl
