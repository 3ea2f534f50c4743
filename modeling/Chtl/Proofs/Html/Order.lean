import Chtl.Proofs.Document.Taken
import Chtl.Proofs.Html.Accounting
import Chtl.Proofs.Html.Integrity
import Chtl.Proofs.Markup.Numbering
import Chtl.Proofs.Style.History
import Chtl.Proofs.Style.Merge

/-!
# The elements of a page in order

Generating a page resolves elements and asks for texts as it goes, and its memory stays right all the
time. So the branch that it writes of a static chain is the one that a new resolver reports, and the
start tags follow the walk through the document, but for what is left out.
-/

set_option autoImplicit false
set_option linter.all false

namespace Chtl

theorem Element.length_fired_of_styleUnder {e : Element} {answer : Answers} {r : ResolvedStyle}
    (h : e.styleUnder answer = .ok r) : r.fired.length = e.chains.length := by
  have hrun : (e.computeStyle (stateless answer)).run.run () = (.ok r, ()) := Prod.ext h rfl
  obtain ⟨_, _, _, -, hchains, -⟩ := Merge.run_computeStyle.mp hrun
  exact hchains.length_eq

/-- Resolving an element of a document, whenever that is done, reports for each of its chains what a
new resolver does. -/
theorem Document.firing_of_resolve {d : Document} (hd : d.Distinct) {e : Element}
    (he : e ∈ d.elements) {m m' : Memo} {resolved : ResolvedStyle} (hm : d.Steady [] m)
    (hrun : (d.resolver.resolve e).run.run m = (.ok resolved, m')) :
    d.firing e = resolved.fired ∧ resolved.fired.length = e.chains.length ∧ d.Steady [] m' := by
  obtain ⟨_, hresolve, hm'⟩ := Resolver.run_resolve (r := d.resolver) hd he hm
  obtain ⟨_, hnew, -⟩ := Resolver.run_resolve (r := d.resolver) hd he d.steady_empty
  obtain ⟨hguarded, rfl⟩ := Prod.mk.inj (hrun.symm.trans hresolve)
  refine ⟨?_, ?_, hm'⟩
  · rw [firing, hnew, ← hguarded]
  · have hdepth : d.resolver.depth = d.elements.length + 1 := rfl
    rw [hdepth, guarded, if_neg List.not_mem_nil] at hguarded
    exact Element.length_fired_of_styleUnder hguarded.symm

namespace Html

/-- The element whose start tag is written. -/
def Mark.started? : Mark → Option Element
  | start e _ _ => some e
  | _ => none

/-- A step of the generation leaves its memory right. -/
def Keeps (d : Document) {α : Type} (x : Generation α) : Prop :=
  ∀ s a s', d.Steady [] s.memo → x.run.run s = (.ok a, s') → d.Steady [] s'.memo

/-- Every run with a right memory writes the start tags of these elements, and leaves the memory
right. -/
def Starts (d : Document) (started : List Element) (g : Generation (List Mark)) : Prop :=
  ∀ s marks s', d.Steady [] s.memo → g.run.run s = (.ok marks, s') →
    marks.filterMap Mark.started? = started ∧ d.Steady [] s'.memo

theorem run_of_resolving {α : Type} {x : Evaluation Memo α} {s s' : GenState} {a : α}
    (h : (resolving x).run.run s = (.ok a, s')) : x.run.run s.memo = (.ok a, s'.memo) := by
  obtain ⟨_, _, hget, h⟩ := run_bind_eq_ok_iff.mp h
  cases hget
  cases hx : x.run.run s.memo with
  | mk result memo =>
    rw [hx] at h
    cases result with
    | ok b =>
      cases h
      rfl
    | error e => cases h

section

variable {d : Document} {α β : Type}

namespace Keeps

theorem pure (a : α) : Keeps d (Pure.pure a) := by
  rintro s _ s' h ⟨⟩
  exact h

theorem bind {x : Generation α} {f : α → Generation β} (hx : Keeps d x) (hf : ∀ a, Keeps d (f a)) :
    Keeps d (x >>= f) := by
  intro s b s' h hrun
  obtain ⟨a, middle, hfirst, hrest⟩ := run_bind_eq_ok_iff.mp hrun
  exact hf a middle b s' (hx s a middle h hfirst) hrest

theorem recording (f : Bridge → Bridge) : Keeps d (Html.recording f) := by
  rintro s _ s' h ⟨⟩
  exact h

theorem freshId (stem : IdStem) : Keeps d (Html.freshId stem) := by
  rintro s _ s' h ⟨⟩
  exact h

theorem beginChain : Keeps d Html.beginChain := by
  rintro s _ s' h ⟨⟩
  exact h

theorem asking (hd : d.Distinct) {x : (σ : Type) → Lookup σ → Evaluation σ α} (hx : Asking x) :
    Keeps d (resolving (x Memo d.resolver.lookup)) := by
  intro s a s' h hrun
  have hsteady := Resolver.steady_asking (r := d.resolver) hd hx h
  rwa [run_of_resolving hrun] at hsteady

theorem generatedId (e : Element) : Keeps d (Html.generatedId e) := by
  unfold Html.generatedId
  split
  · exact .pure none
  · split_ifs
    · exact (Keeps.freshId _).bind fun id => .pure _
    · exact .pure none

theorem recordResponsive (e : Element) (id : Option String) :
    Keeps d (Html.recordResponsive e id) := by
  cases id with
  | none => exact .pure ()
  | some id =>
    rw [Html.recordResponsive]
    exact .recording _

theorem scriptContext (p : Placeholder) (kind : FragmentKind) (parent : Option String) :
    Keeps d (Html.scriptContext p kind parent) := by
  unfold Html.scriptContext
  split
  · exact .recording _
  · exact .pure ()

theorem recordBody (hd : d.Distinct) (style : StyleMap)
    (binding : String → String → ConditionalBinding) (ds : List StyleDeclaration) :
    Keeps d (Html.recordBody style d.resolver.lookup binding ds) := by
  induction ds with
  | nil => exact .pure false
  | cons declaration ds ih =>
    refine (Keeps.asking hd (asking_staticText style declaration)).bind fun text => ?_
    cases text with
    | none => exact ih
    | some value => exact (Keeps.recording _).bind fun _ => ih.bind fun _ => .pure true

theorem recordBranch (hd : d.Distinct) (style : StyleMap) (target : String) (chain index : Nat)
    (setsAnything : Bool) (condition : Option Condition) (body : List StyleDeclaration) :
    Keeps d (Html.recordBranch d.resolver style target chain index setsAnything condition body) := by
  have hrest (js : Option String) : Keeps d (do
      let recorded ← Html.recordBody style d.resolver.lookup
        (fun key value => ⟨target, key, js, value, chain, index⟩) body
      if setsAnything && !recorded then
        Html.recording (·.recordConditional ⟨target, "", js, "", chain, index⟩)
      Pure.pure js) := by
    refine (Keeps.recordBody hd style _ body).bind fun recorded => ?_
    split_ifs
    · exact (Keeps.recording _).bind fun _ => .pure js
    · exact .pure js
  unfold Html.recordBranch
  cases condition with
  | none => exact hrest none
  | some c => exact (Keeps.asking hd (asking_lower style c.expr)).bind fun js => hrest (some js)

end Keeps

variable {started more : List Element} {g : Generation (List Mark)}
  {gens : List (Generation (List Mark))}

namespace Starts

theorem pure {marks : List Mark} (h : marks.filterMap Mark.started? = started) :
    Starts d started (Pure.pure marks) := by
  rintro s _ s' hs ⟨⟩
  exact ⟨h, hs⟩

/-- A step before the marks are written. -/
theorem after {x : Generation α} {f : α → Generation (List Mark)} (hx : Keeps d x)
    (hf : ∀ a, Starts d started (f a)) : Starts d started (x >>= f) := by
  intro s marks s' hs hrun
  obtain ⟨a, middle, hfirst, hrest⟩ := run_bind_eq_ok_iff.mp hrun
  exact hf a middle marks s' (hx s a middle hs hfirst) hrest

/-- Marks that are written around others. -/
theorem around {f : List Mark → List Mark} (before : List Element) (h : Starts d started g)
    (hf : ∀ marks, (f marks).filterMap Mark.started? = before ++ marks.filterMap Mark.started?) :
    Starts d (before ++ started) (do return f (← g)) := by
  intro s marks s' hs hrun
  obtain ⟨inner, middle, hinner, hpure⟩ := run_bind_eq_ok_iff.mp hrun
  cases hpure
  obtain ⟨hstarted, hs'⟩ := h s inner s' hs hinner
  exact ⟨by rw [hf, hstarted], hs'⟩

theorem seq {rest : Generation (List Mark)} (h : Starts d started g) (h' : Starts d more rest) :
    Starts d (started ++ more) (do
      let marks ← g
      let more ← rest
      return marks ++ more) := by
  intro s marks s' hs hrun
  obtain ⟨first, middle, hfirst, hrun⟩ := run_bind_eq_ok_iff.mp hrun
  obtain ⟨later, last, hlater, hpure⟩ := run_bind_eq_ok_iff.mp hrun
  cases hpure
  obtain ⟨hstarted, hmiddle⟩ := h s first middle hs hfirst
  obtain ⟨hmore, hlast⟩ := h' middle later s' hmiddle hlater
  exact ⟨by rw [List.filterMap_append, hstarted, hmore], hlast⟩

theorem inTurn {pieces : List (List (Element × Bool))}
    (h : List.Forall₂ (fun notes g => Starts d (shownOf notes) g) pieces gens) :
    Starts d (shownOf pieces.flatten) (Html.inTurn gens) := by
  induction h with
  | nil => exact .pure rfl
  | cons hfirst _ ih =>
    rw [List.flatten_cons, shownOf_append]
    exact hfirst.seq ih

theorem closed (tag : String) {empty : Bool} (h : Starts d started g)
    (hempty : empty = true → started = []) : Starts d started (Html.closed tag empty g) := by
  unfold Html.closed
  split_ifs with hvoid
  · rw [hempty (Bool.and_eq_true_iff.mp hvoid).2]
    exact .pure rfl
  · exact h.around [] fun marks => by simp [Mark.started?]

theorem inWrapper {empty : Bool} {condition : String} (h : Starts d started g)
    (hempty : empty = true → started = []) :
    Starts d started (Html.inWrapper empty condition g) := by
  unfold Html.inWrapper
  split_ifs with hnone
  · rw [hempty hnone]
    exact .pure rfl
  · refine .after (.freshId _) fun wrapper => .after (.recording _) fun _ => ?_
    exact h.around [] fun marks => by simp [Mark.started?, List.filterMap_cons]

end Starts

/-- Whatever its parent, the node writes the start tags of the elements that are noted as shown. -/
def StartsShown (d : Document) (n : Node) : Prop :=
  ∀ parent, Starts d (shownOf (n.noted d.firing)) (node d.resolver parent n)

theorem starts_nodes (parent : Option String) {ns : List Node} (h : ∀ n ∈ ns, StartsShown d n) :
    List.Forall₂ (fun notes g => Starts d (shownOf notes) g) (notedOfNodes d.firing ns)
      (nodes d.resolver parent ns) := by
  induction ns with
  | nil =>
    rw [nodes]
    exact .nil
  | cons n ns ih =>
    rw [nodes]
    exact .cons (h n List.mem_cons_self parent) (ih fun m hm => h m (List.mem_cons_of_mem n hm))

/-- A branch that is taken writes its children. -/
theorem starts_children (parent : Option String) {b : Branch}
    (h : ∀ n ∈ b.children, StartsShown d n) :
    Starts d (shownOf (b.noted d.firing true)) (inTurn (nodes d.resolver parent b.children)) := by
  cases b
  rw [Branch.noted, if_pos rfl]
  exact .inTurn (starts_nodes parent h)

theorem shownOf_noted_false (b : Branch) : shownOf (b.noted d.firing false) = [] := by
  cases b
  simp [Branch.noted, shownOf]

theorem shownOf_notedOfBranches_none {taken : Nat → Bool} (h : ∀ k, taken k = false)
    (bs : List Branch) : shownOf (notedOfBranches d.firing taken bs).flatten = [] := by
  induction bs generalizing taken with
  | nil => rfl
  | cons b bs ih =>
    rw [notedOfBranches, List.flatten_cons, shownOf_append, h 0, shownOf_noted_false,
      ih fun k => h (k + 1), List.nil_append]

/-- Of a static chain the branch with the index is written. -/
theorem starts_firedBranch (id : Option String) {taken : Nat → Bool} {index : Nat}
    (htaken : ∀ k, taken k = (index == k)) {bs : List Branch}
    (h : ∀ b ∈ bs, ∀ n ∈ b.children, StartsShown d n) :
    Starts d (shownOf (notedOfBranches d.firing taken bs).flatten)
      (firedBranch d.resolver id index bs) := by
  induction bs generalizing taken index with
  | nil =>
    rw [firedBranch]
    exact .pure rfl
  | cons b bs ih =>
    obtain ⟨hfirst, hrest⟩ := List.forall_mem_cons.mp h
    rw [notedOfBranches, List.flatten_cons, shownOf_append, htaken 0]
    cases index with
    | zero =>
      rw [shownOf_notedOfBranches_none (by simp [htaken]), List.append_nil]
      have hchildren := starts_children id hfirst
      cases b
      rw [firedBranch]
      exact hchildren
    | succ index =>
      rw [firedBranch]
      have hlater := @ih (fun k => taken (k + 1)) index (by simp [htaken]) hrest
      simpa [shownOf_noted_false] using hlater

/-- Of a dynamic chain all branches are written, each in a wrapper. -/
theorem starts_dynamicBranches (hd : d.Distinct) (style : StyleMap) (target : String) (chain : Nat)
    (setsAnything : Bool) {taken : Nat → Bool} (htaken : ∀ k, taken k = true) (index : Nat)
    (earlier : List String) {bs : List Branch} (h : ∀ b ∈ bs, ∀ n ∈ b.children, StartsShown d n) :
    Starts d (shownOf (notedOfBranches d.firing taken bs).flatten)
      (dynamicBranches d.resolver style target chain setsAnything index earlier bs) := by
  induction bs generalizing taken index earlier with
  | nil =>
    rw [dynamicBranches]
    exact .pure rfl
  | cons b bs ih =>
    obtain ⟨hfirst, hrest⟩ := List.forall_mem_cons.mp h
    have hchildren := starts_children (some target) hfirst
    have hnone : b.children.isEmpty = true → shownOf (b.noted d.firing true) = [] := by
      intro hempty
      obtain ⟨condition, body, children, span⟩ := b
      obtain rfl : children = [] := List.isEmpty_iff.mp hempty
      rfl
    rw [notedOfBranches, List.flatten_cons, shownOf_append, htaken 0]
    cases b
    rw [dynamicBranches]
    refine .after (.recordBranch hd _ _ _ _ _ _ _) fun js => ?_
    exact (hchildren.inWrapper hnone).seq (ih (fun k => htaken (k + 1)) (index + 1) _ hrest)

/-- The chains of an element write what is noted of them, given what fired of each. -/
theorem starts_chainsOf (hd : d.Distinct) (style : StyleMap) (id : Option String) {cs : List Chain}
    {fired : List (Option Nat)} (hlength : fired.length = cs.length)
    (h : ∀ c ∈ cs, ∀ b ∈ c.branches, ∀ n ∈ b.children, StartsShown d n) :
    List.Forall₂ (fun c g => c.1 = g.1 ∧ Starts d (shownOf c.2) g.2)
      (notedOfChains d.firing cs fired) (chainsOf d.resolver style id cs fired) := by
  induction cs generalizing fired with
  | nil =>
    rw [chainsOf]
    exact .nil
  | cons c cs ih =>
    obtain ⟨branches, anchor⟩ := c
    obtain ⟨hfirst, hrest⟩ := List.forall_mem_cons.mp h
    cases fired with
    | nil => cases hlength
    | cons first fired =>
      rw [chainsOf.eq_def, notedOfChains]
      refine .cons ⟨rfl, ?_⟩ (ih (Nat.succ.inj hlength) hrest)
      rw [List.head?_cons, Option.join_some, Chain.noted]
      dsimp only
      split_ifs with hdynamic
      · refine .after .beginChain fun chain => ?_
        exact starts_dynamicBranches hd style _ chain _ (by simp [hdynamic]) 0 [] hfirst
      · cases first with
        | none =>
          rw [shownOf_notedOfBranches_none (by simp [hdynamic])]
          exact .pure rfl
        | some index => exact starts_firedBranch id (by simp [hdynamic]) hfirst

/-- A node of a document writes the start tags of what a walk through it notes as shown. -/
theorem starts_node (hd : d.Distinct) (n : Node) (hn : ∀ e ∈ entered n.events, e ∈ d.elements) :
    StartsShown d n := by
  induction n using Node.induction with
  | element e hchildren hchains =>
    intro parent
    rw [Node.events] at hn
    have he : e ∈ d.elements := hn e (Element.mem_entered.mpr (.inl rfl))
    have hown : ∀ n ∈ e.children, StartsShown d n := fun n hmem =>
      hchildren n hmem fun x hx => hn x (Element.mem_entered.mpr (.inr (.inl
        ⟨n.events, eventsOfNodes_eq_map _ ▸ List.mem_map_of_mem hmem, hx⟩)))
    have hbranches : ∀ c ∈ e.chains, ∀ b ∈ c.branches, ∀ n ∈ b.children, StartsShown d n := by
      intro c hc b hb n hmem
      refine hchains c hc b hb n hmem fun x hx => hn x (Element.mem_entered.mpr (.inr (.inr
        ⟨(c.anchor, c.events), eventsOfChains_eq_map _ ▸ List.mem_map.mpr ⟨c, hc, rfl⟩, ?_⟩)))
      rw [Chain.entered_events]
      exact List.mem_flatMap.mpr ⟨b, hb, List.mem_flatMap.mpr ⟨n, hmem, hx⟩⟩
    rw [node, Node.noted]
    intro s marks s' hs hrun
    obtain ⟨nodeId, tag, attributes, children, style, chains, rules, span⟩ := e
    rw [element] at hrun
    obtain ⟨resolved, s₁, hresolved, hrest⟩ := run_bind_eq_ok_iff.mp hrun
    obtain ⟨hfiring, hlength, hs₁⟩ := Document.firing_of_resolve hd he hs
      (run_of_resolving hresolved)
    have hempty (hnone : (children.isEmpty && chains.isEmpty) = true) : shownOf (weave 0
        (notedOfNodes d.firing children)
        (notedOfChains d.firing chains resolved.fired)).flatten = [] := by
      obtain ⟨hnodes, hnochains⟩ := Bool.and_eq_true_iff.mp hnone
      obtain rfl : children = [] := List.isEmpty_iff.mp hnodes
      obtain rfl : chains = [] := List.isEmpty_iff.mp hnochains
      rfl
    have hcontent (id : Option String) := (Starts.inTurn (weave_forall₂ (starts_nodes id hown)
      (starts_chainsOf hd resolved.style id hlength hbranches) 0)).closed tag hempty
    rw [Element.noted, hfiring]
    refine Starts.after (.generatedId _) (fun generated => ?_) s₁ marks s' hs₁ hrest
    refine .after (.recordResponsive _ _) fun _ => ?_
    refine (hcontent _).around
      [⟨nodeId, tag, attributes, children, style, chains, rules, span⟩] fun marks => ?_
    simp [Mark.started?, List.filterMap_cons]
  | text value span =>
    intro parent
    rw [node]
    exact .pure rfl
  | comment value span =>
    intro parent
    rw [node]
    exact .pure rfl
  | placeholder p kind span =>
    intro parent
    rw [node]
    exact .after (.scriptContext p kind parent) fun _ => .pure rfl

end

end Html

namespace Document

open Html

variable {d : Document}

/-- The walk through a document that notes at each element whether it is shown. -/
def noted (d : Document) : List (Element × Bool) := (notedOfNodes d.firing d.children).flatten

theorem map_fst_noted (d : Document) : d.noted.map (·.1) = d.elements := by
  rw [noted, List.map_flatten, map_fst_notedOfNodes, ← List.flatMap_def, ← entered_flatten]
  rfl

theorem leftOut_iff {e : Element} : d.LeftOut e ↔ (e, false) ∈ d.noted := by
  rw [LeftOut, leftOut_iff_noted, noted, notedOfNodes_eq_map, List.mem_flatten]
  simp

theorem starts_children (hd : d.Distinct) :
    Starts d (shownOf d.noted) (inTurn (nodes d.resolver none d.children)) := by
  refine .inTurn (starts_nodes none fun n hn => starts_node hd n fun e he => ?_)
  exact mem_entered_flatten.mpr
    ⟨n.events, eventsOfNodes_eq_map _ ▸ List.mem_map_of_mem hn, he⟩

open Classical in
/-- The start tags of a page are those of the document's elements in document order, without the ones
that stand in a branch of a static chain that does not fire. -/
theorem started_of_generate {scanned : Scanned} {page : Page} {start bridge : Bridge}
    (h : ofScanned scanned = .ok d) (hg : d.generate start = .ok (page, bridge)) :
    ∃ marks, d.marks start = .ok (marks, bridge) ∧ page = .ofMarks marks ∧
      marks.filterMap Mark.started? = d.elements.filter fun e => ¬ d.LeftOut e := by
  have hd : d.Distinct := d.visited_events.nodup_iff.mpr (numbers_nodup h)
  obtain ⟨marks, hmarks, hpage⟩ := marks_of_generate hg
  obtain ⟨final, hrun, -⟩ := run_of_marks hmarks
  refine ⟨marks, hmarks, hpage, ?_⟩
  obtain ⟨hstarted, -⟩ := starts_children hd _ marks final d.steady_empty hrun
  have honce : (d.noted.map (·.1)).Nodup := d.map_fst_noted ▸ hd.of_map
  rw [hstarted, shownOf_eq_filter honce, map_fst_noted]
  simp only [leftOut_iff]

open Classical in
/-- A static chain that takes a branch, one inside that branch that takes none, and a dynamic chain
with a static one inside. -/
theorem started_of_generate_nested :
    ∃ source scanned d, source =
        "div \x7b if \x7b condition: 1 > 2, a \x7b b \x7b \x7d \x7d \x7d else \x7b c \x7b ".toList ++
          ("if \x7b condition: 1 > 2, i \x7b \x7d \x7d \x7d \x7d ".toList ++
            ("p \x7b if \x7b condition: \x7b\x7bx\x7d\x7d, q \x7b ".toList ++
              ("if \x7b condition: 2 > 1, s \x7b \x7d \x7d \x7d \x7d ".toList ++
                "else \x7b u \x7b \x7d \x7d \x7d \x7d".toList))) ∧
      scan source = .ok scanned ∧ ofScanned scanned = .ok d ∧ (∃ r, d.generate {} = .ok r) ∧
      d.elements.map (·.tag) = ["div", "a", "b", "c", "i", "p", "q", "s", "u"] ∧
      (d.elements.filter fun e => ¬ d.LeftOut e).map (·.tag) =
        ["div", "c", "p", "q", "s", "u"] := by
  obtain ⟨source, hsource⟩ : ∃ source : List Char, source =
      "div \x7b if \x7b condition: 1 > 2, a \x7b b \x7b \x7d \x7d \x7d else \x7b c \x7b ".toList ++
        ("if \x7b condition: 1 > 2, i \x7b \x7d \x7d \x7d \x7d ".toList ++
          ("p \x7b if \x7b condition: \x7b\x7bx\x7d\x7d, q \x7b ".toList ++
            ("if \x7b condition: 2 > 1, s \x7b \x7d \x7d \x7d \x7d ".toList ++
              "else \x7b u \x7b \x7d \x7d \x7d \x7d".toList))) :=
    ⟨_, rfl⟩
  have hok : ∃ scanned, scan source = .ok scanned ∧ ∃ d, ofScanned scanned = .ok d ∧
      d.elements.map (·.tag) = ["div", "a", "b", "c", "i", "p", "q", "s", "u"] ∧
      ∃ m, d.marks {} = .ok m ∧
        (m.1.filterMap Mark.started?).map (·.tag) = ["div", "c", "p", "q", "s", "u"] := by
    rw [hsource, String.toList_ofList, String.toList_ofList, String.toList_ofList,
      String.toList_ofList, String.toList_ofList]
    decide +kernel
  obtain ⟨scanned, hs, d, hd, htags, ⟨marks, bridge⟩, hmarks, hstarted⟩ := hok
  have hg : d.generate {} = .ok (.ofMarks marks, bridge) := bind_eq_ok_iff.mpr ⟨_, hmarks, rfl⟩
  obtain ⟨written, hwritten, -, hfilter⟩ := started_of_generate hd hg
  obtain ⟨rfl, -⟩ := Prod.mk.inj (Except.ok.inj (hmarks.symm.trans hwritten))
  exact ⟨source, scanned, d, hsource, hs, hd, ⟨_, hg⟩, htags, hfilter ▸ hstarted⟩

end Document

end Chtl
