import Chtl.Document.Renumber
import Chtl.Proofs.Document.Blocks

/-!
# What a reader builds

Elements are built step by step: attributes, children, chains, declarations and rules come one after
the other. What every step keeps is true of all elements of a document. Blocks stay only where they
may stand, and never in a branch.
-/

set_option autoImplicit false
set_option linter.all false

namespace Chtl

/-- The value, if it is an expression, is such. -/
def StyleDeclaration.Holds (exprs : Expr → Prop) (d : StyleDeclaration) : Prop :=
  ∀ e, d.value = .expr e → exprs e

/-- The condition and the values of a branch are such expressions. -/
structure Branch.Holds (exprs : Expr → Prop) (b : Branch) : Prop where
  condition : ∀ c, b.condition = some c → exprs c.expr
  body : ∀ d ∈ b.body, d.Holds exprs

/-- A chain as it is written: it begins with a condition, only its last branch may have none, its
declarations are static, and its expressions are such. -/
structure Chain.Shaped (exprs : Expr → Prop) (c : Chain) : Prop where
  head : ∃ b ∈ c.branches.head?, b.condition.isSome
  earlier : ∀ b ∈ c.branches.dropLast, b.condition.isSome
  static : ∀ b ∈ c.branches, ∀ d ∈ b.body, d.value.isResponsive = false
  holds : ∀ b ∈ c.branches, b.Holds exprs

/-- What a branch asks and sets. -/
def Branch.own (b : Branch) : Option Condition × List StyleDeclaration := (b.condition, b.body)

/-- The shape of a chain does not depend on the children of its branches. -/
theorem Chain.Shaped.congr {exprs : Expr → Prop} {c c' : Chain} (h : c.Shaped exprs)
    (hown : c'.branches.map Branch.own = c.branches.map Branch.own) : c'.Shaped exprs := by
  have hhead : (c'.branches.map Branch.own).head? = (c.branches.map Branch.own).head? := by
    rw [hown]
  have hearlier : ∀ x ∈ (c'.branches.map Branch.own).dropLast, x.1.isSome := by
    rw [hown, ← List.map_dropLast]
    exact List.forall_mem_map.mpr h.earlier
  have hstatic : ∀ x ∈ c'.branches.map Branch.own, ∀ d ∈ x.2, d.value.isResponsive = false := by
    rw [hown]
    exact List.forall_mem_map.mpr h.static
  have hholds : ∀ x ∈ c'.branches.map Branch.own,
      (∀ condition, x.1 = some condition → exprs condition.expr) ∧ ∀ d ∈ x.2, d.Holds exprs := by
    rw [hown]
    exact List.forall_mem_map.mpr fun b hb => ⟨(h.holds b hb).condition, (h.holds b hb).body⟩
  have hbranches : ∀ b ∈ c'.branches, b.Holds exprs := by
    intro b hb
    obtain ⟨hcondition, hbody⟩ := hholds b.own (List.mem_map_of_mem hb)
    exact ⟨hcondition, hbody⟩
  rw [← List.map_dropLast] at hearlier
  refine ⟨?_, List.forall_mem_map.mp hearlier, List.forall_mem_map.mp hstatic, hbranches⟩
  obtain ⟨b, hb, hcondition⟩ := h.head
  rw [List.head?_map, List.head?_map, hb, Option.map_some, Option.map_eq_some_iff] at hhead
  obtain ⟨b', hb', heq⟩ := hhead
  exact ⟨b', hb', (congrArg (·.1.isSome) heq).trans hcondition⟩

theorem map_own_renumberBranches (next : Nat) (bs : List Branch) :
    (renumberBranches next bs).1.map Branch.own = bs.map Branch.own := by
  induction bs generalizing next with
  | nil => rfl
  | cons b bs ih =>
    have hfirst : (b.renumber next).1.own = b.own := by
      cases b
      rfl
    rw [renumberBranches, List.map_cons, List.map_cons, ih, hfirst]

/-- What is asked of the parts of elements: of the spans of elements and attributes, of the
expressions in values and conditions, of names that are read as a whole, which are tags, attributes
and what branches set, and of the keys of styles. -/
structure Asked where
  spans : Span → Prop
  exprs : Expr → Prop
  names : String → Prop
  keys : String → Prop

/-- What is true of a new element and stays true with every part that is added to it, where the
parts are as they are asked to be. -/
structure Kept (asked : Asked) (good : Element → Prop) : Prop where
  opened : ∀ nodeId tag span, asked.spans span → asked.names tag →
    good ⟨nodeId, tag, [], [], [], [], [], span⟩
  closed : ∀ e span, asked.spans span → good e → good { e with span := span }
  addChildren : ∀ e nodes, good e → good (e.addChildren nodes)
  setAttribute : ∀ e a, asked.spans a.span → asked.names a.name → good e → good (e.setAttribute a)
  setDeclaration : ∀ e d, d.Holds asked.exprs → asked.keys d.key → good e →
    good (e.setDeclaration d)
  addRule : ∀ e r, good e → good (e.addRule r)
  addChain : ∀ e branches, good e → Chain.Shaped asked.exprs ⟨branches, e.children.length⟩ →
    (∀ b ∈ branches, ∀ d ∈ b.body, asked.names d.key) →
    good (e.addChain ⟨branches, e.children.length⟩)
  renumber : ∀ e next, good e → good (e.renumber next).1

/-- What is kept each for itself is kept together. -/
theorem Kept.and {asked : Asked} {good more : Element → Prop} (h : Kept asked good)
    (h' : Kept asked more) : Kept asked fun e => good e ∧ more e where
  opened nodeId tag span hspan htag :=
    ⟨h.opened nodeId tag span hspan htag, h'.opened nodeId tag span hspan htag⟩
  closed e span hspan he := ⟨h.closed e span hspan he.1, h'.closed e span hspan he.2⟩
  addChildren e nodes he := ⟨h.addChildren e nodes he.1, h'.addChildren e nodes he.2⟩
  setAttribute e a hspan hname he :=
    ⟨h.setAttribute e a hspan hname he.1, h'.setAttribute e a hspan hname he.2⟩
  setDeclaration e d hd hkey he :=
    ⟨h.setDeclaration e d hd hkey he.1, h'.setDeclaration e d hd hkey he.2⟩
  addRule e r he := ⟨h.addRule e r he.1, h'.addRule e r he.2⟩
  addChain e branches he hshaped hnames :=
    ⟨h.addChain e branches he.1 hshaped hnames, h'.addChain e branches he.2 hshaped hnames⟩
  renumber e next he := ⟨h.renumber e next he.1, h'.renumber e next he.2⟩

/-- Every element in the node is good, and its blocks are those that may stand there, none of them
in a branch. -/
inductive Node.Built (good : Element → Prop) : (Block → Prop) → Node → Prop
  | element {may : Block → Prop} {e : Element} (own : good e)
      (children : ∀ n ∈ e.children, Built good may n)
      (branches : ∀ c ∈ e.chains, ∀ b ∈ c.branches, ∀ n ∈ b.children,
        Built good (fun _ => False) n) : Built good may (.element e)
  | text {may : Block → Prop} (value : String) (span : Span) : Built good may (.text value span)
  | comment {may : Block → Prop} (value : String) (span : Span) :
      Built good may (.comment value span)
  | placeholder {may : Block → Prop} {p : Placeholder} {kind : FragmentKind} {span : Span}
      (h : may ⟨p, kind, span⟩) : Built good may (.placeholder p kind span)

/-- An element is built if it is as a node. -/
abbrev Element.Built (good : Element → Prop) (may : Block → Prop) (e : Element) : Prop :=
  (Node.element e).Built good may

theorem Element.inner_setAttribute (e : Element) (a : Attribute) :
    (e.setAttribute a).children = e.children ∧ (e.setAttribute a).chains = e.chains := by
  unfold setAttribute
  split_ifs <;> exact ⟨rfl, rfl⟩

theorem Element.inner_setDeclaration (e : Element) (d : StyleDeclaration) :
    (e.setDeclaration d).children = e.children ∧ (e.setDeclaration d).chains = e.chains := by
  unfold setDeclaration
  split_ifs <;> exact ⟨rfl, rfl⟩

theorem Element.inner_addRule (e : Element) (rule : StyleRule) :
    (e.addRule rule).children = e.children ∧ (e.addRule rule).chains = e.chains := by
  unfold addRule addClass setIdIfAbsent
  split
  · split_ifs <;> exact ⟨rfl, rfl⟩
  · split_ifs <;> exact ⟨rfl, rfl⟩
  · exact ⟨rfl, rfl⟩

section

variable {good : Element → Prop} {may : Block → Prop}

theorem Node.Built.mono {wider : Block → Prop} {n : Node} (h : n.Built good may)
    (hwider : ∀ b, may b → wider b) : n.Built good wider := by
  induction h with
  | element own _ branches ih _ => exact .element own (fun n hn => ih n hn hwider) branches
  | text value span => exact .text value span
  | comment value span => exact .comment value span
  | placeholder hmay => exact .placeholder (hwider _ hmay)

namespace Element.Built

variable {asked : Asked} {e : Element}

theorem own (h : e.Built good may) : good e := by
  cases h with
  | element own => exact own

theorem inner (h : e.Built good may) : (∀ n ∈ e.children, n.Built good may) ∧
    ∀ c ∈ e.chains, ∀ b ∈ c.branches, ∀ n ∈ b.children, n.Built good fun _ => False := by
  cases h with
  | element _ children branches => exact ⟨children, branches⟩

/-- A step that leaves children and chains as they are. -/
theorem congr {e' : Element} (h : e.Built good may) (hchildren : e'.children = e.children)
    (hchains : e'.chains = e.chains) (hgood : good e') : e'.Built good may := by
  obtain ⟨children, branches⟩ := h.inner
  exact .element hgood (by rwa [hchildren]) (by rwa [hchains])

variable (hkept : Kept asked good)

include hkept

theorem opened (nodeId : Nat) {tag : String} {span : Span} (hspan : asked.spans span)
    (htag : asked.names tag) : Element.Built good may ⟨nodeId, tag, [], [], [], [], [], span⟩ :=
  .element (hkept.opened nodeId tag span hspan htag) (by simp) (by simp)

theorem closed (h : e.Built good may) {span : Span} (hspan : asked.spans span) :
    Built good may { e with span := span } :=
  h.congr rfl rfl (hkept.closed e span hspan h.own)

theorem addChildren (h : e.Built good may) {nodes : List Node}
    (hnodes : ∀ n ∈ nodes, n.Built good may) : (e.addChildren nodes).Built good may := by
  obtain ⟨children, branches⟩ := h.inner
  exact .element (hkept.addChildren e nodes h.own) (List.forall_mem_append.mpr ⟨children, hnodes⟩)
    branches

theorem setAttribute (h : e.Built good may) {a : Attribute} (ha : asked.spans a.span)
    (hname : asked.names a.name) : (e.setAttribute a).Built good may := by
  obtain ⟨hchildren, hchains⟩ := e.inner_setAttribute a
  exact h.congr hchildren hchains (hkept.setAttribute e a ha hname h.own)

theorem setDeclaration (h : e.Built good may) {d : StyleDeclaration} (hd : d.Holds asked.exprs)
    (hkey : asked.keys d.key) : (e.setDeclaration d).Built good may := by
  obtain ⟨hchildren, hchains⟩ := e.inner_setDeclaration d
  exact h.congr hchildren hchains (hkept.setDeclaration e d hd hkey h.own)

theorem setDeclarations (h : e.Built good may) {ds : List StyleDeclaration}
    (hds : ∀ d ∈ ds, d.Holds asked.exprs ∧ asked.keys d.key) :
    (ds.foldl Element.setDeclaration e).Built good may := by
  induction ds generalizing e with
  | nil => exact h
  | cons d ds ih =>
    obtain ⟨hd, hds⟩ := List.forall_mem_cons.mp hds
    exact ih (h.setDeclaration hkept hd.1 hd.2) hds

theorem addRule (h : e.Built good may) (rule : StyleRule) : (e.addRule rule).Built good may := by
  obtain ⟨hchildren, hchains⟩ := e.inner_addRule rule
  exact h.congr hchildren hchains (hkept.addRule e rule h.own)

theorem addChain (h : e.Built good may) {branches : List Branch}
    (hshaped : Chain.Shaped asked.exprs ⟨branches, e.children.length⟩)
    (hnames : ∀ b ∈ branches, ∀ d ∈ b.body, asked.names d.key)
    (hbranches : ∀ b ∈ branches, ∀ n ∈ b.children, n.Built good fun _ => False) :
    (e.addChain ⟨branches, e.children.length⟩).Built good may := by
  obtain ⟨children, chains⟩ := h.inner
  refine .element (hkept.addChain e branches h.own hshaped hnames) children ?_
  exact List.forall_mem_append.mpr ⟨chains, by simpa using hbranches⟩

end Element.Built

theorem exists_of_mem_renumberNodes {next : Nat} {ns : List Node} {n : Node}
    (h : n ∈ (renumberNodes next ns).1) : ∃ m ∈ ns, ∃ k, n = (m.renumber k).1 := by
  induction ns generalizing next with
  | nil => cases h
  | cons m ns ih =>
    rw [renumberNodes] at h
    rcases List.mem_cons.mp h with rfl | h
    · exact ⟨m, List.mem_cons_self, next, rfl⟩
    · obtain ⟨m', hm, k, rfl⟩ := ih h
      exact ⟨m', List.mem_cons_of_mem m hm, k, rfl⟩

theorem exists_of_mem_renumberBranches {next : Nat} {bs : List Branch} {b : Branch}
    (h : b ∈ (renumberBranches next bs).1) : ∃ a ∈ bs, ∃ k, b = (a.renumber k).1 := by
  induction bs generalizing next with
  | nil => cases h
  | cons a bs ih =>
    rw [renumberBranches] at h
    rcases List.mem_cons.mp h with rfl | h
    · exact ⟨a, List.mem_cons_self, next, rfl⟩
    · obtain ⟨a', ha, k, rfl⟩ := ih h
      exact ⟨a', List.mem_cons_of_mem a ha, k, rfl⟩

theorem exists_of_mem_renumberChains {next : Nat} {cs : List Chain} {c : Chain}
    (h : c ∈ (renumberChains next cs).1) : ∃ a ∈ cs, ∃ k, c = (a.renumber k).1 := by
  induction cs generalizing next with
  | nil => cases h
  | cons a cs ih =>
    rw [renumberChains] at h
    rcases List.mem_cons.mp h with rfl | h
    · exact ⟨a, List.mem_cons_self, next, rfl⟩
    · obtain ⟨a', ha, k, rfl⟩ := ih h
      exact ⟨a', List.mem_cons_of_mem a ha, k, rfl⟩

/-- Fresh node ids leave a node built. -/
theorem Node.Built.renumber {asked : Asked} (hkept : Kept asked good) {n : Node}
    (h : n.Built good may) (next : Nat) : (n.renumber next).1.Built good may := by
  induction h generalizing next with
  | @element may e own _ _ hchildren hbranches =>
    have hown := hkept.renumber e next own
    rw [Node.renumber]
    cases e
    refine .element hown ?_ ?_
    · intro n hn
      rw [Element.renumber] at hn
      obtain ⟨m, hm, k, rfl⟩ := exists_of_mem_renumberNodes hn
      exact hchildren m hm k
    · intro c hc b hb n hn
      rw [Element.renumber] at hc
      obtain ⟨⟨branches, anchor⟩, ha, k, rfl⟩ := exists_of_mem_renumberChains hc
      rw [Chain.renumber] at hb
      obtain ⟨⟨condition, body, nodes, span⟩, hb', k', rfl⟩ := exists_of_mem_renumberBranches hb
      rw [Branch.renumber] at hn
      obtain ⟨m, hm, k'', rfl⟩ := exists_of_mem_renumberNodes hn
      exact hbranches _ ha _ hb' m hm k''
  | text value span => exact .text value span
  | comment value span => exact .comment value span
  | placeholder hmay => exact .placeholder hmay

/-- Every element that a walk enters is built, be it in a branch. -/
theorem Node.Built.entered {n : Node} (h : n.Built good may) {x : Element}
    (hx : x ∈ Chtl.entered n.events) : ∃ may, x.Built good may := by
  induction h with
  | @element may e own children branches hchildren hbranches =>
    rw [Node.events] at hx
    rcases Element.mem_entered.mp hx with rfl | ⟨walk, hwalk, hx⟩ | ⟨chain, hchain, hx⟩
    · exact ⟨may, .element own children branches⟩
    · rw [eventsOfNodes_eq_map] at hwalk
      obtain ⟨n, hn, rfl⟩ := List.mem_map.mp hwalk
      exact hchildren n hn hx
    · rw [eventsOfChains_eq_map] at hchain
      obtain ⟨c, hc, rfl⟩ := List.mem_map.mp hchain
      obtain ⟨walk, hwalk, hx⟩ := Chain.mem_entered.mp hx
      rw [eventsOfBranches_eq_map] at hwalk
      obtain ⟨b, hb, rfl⟩ := List.mem_map.mp hwalk
      obtain ⟨walk, hwalk, hx⟩ := Branch.mem_entered.mp hx
      rw [eventsOfNodes_eq_map] at hwalk
      obtain ⟨n, hn, rfl⟩ := List.mem_map.mp hwalk
      exact hbranches c hc b hb n hn hx
  | text => cases hx
  | comment => cases hx
  | placeholder => cases hx

/-- Chains without content leave the children as they are. -/
theorem flatten_weave_of_empty {α : Type} (index : Nat) (children : List (List α))
    {chains : List (Nat × List α)} (h : ∀ c ∈ chains, c.2 = []) :
    (weave index children chains).flatten = children.flatten := by
  have hempty (cs : List (Nat × List α)) (hcs : ∀ c ∈ cs, c.2 = []) :
      (cs.map (·.2)).flatten = [] :=
    List.flatten_eq_nil_iff.mpr (List.forall_mem_map.mpr hcs)
  induction children generalizing index chains with
  | nil => exact hempty chains h
  | cons child children ih =>
    have hbefore := hempty (chains.takeWhile fun c => decide (c.1 ≤ index))
      fun c hc => h c ((List.takeWhile_prefix _).subset hc)
    rw [weave, List.flatten_append, List.flatten_cons, List.flatten_cons, hbefore, List.nil_append,
      ih (index + 1) fun c hc => h c ((List.dropWhile_suffix _).subset hc)]

theorem Branch.blocks_eq (b : Branch) : b.blocks = b.children.flatMap Node.blocks := by
  cases b
  rw [blocks, blocksOfNodes_eq_map, List.flatMap_def]

/-- The blocks of an element are those of its children. -/
theorem Element.blocks_eq {e : Element} (h : ∀ c ∈ e.chains, ∀ b ∈ c.branches, b.blocks = []) :
    e.blocks = e.children.flatMap Node.blocks := by
  have hchain (c : Chain) (hc : c ∈ e.chains) : c.blocks = [] := by
    have hbranches := h c hc
    cases c
    rw [Chain.blocks, blocksOfBranches_eq_map]
    simpa using hbranches
  cases e
  rw [blocks, flatten_weave_of_empty, blocksOfNodes_eq_map, List.flatMap_def]
  rw [blocksOfChains_eq_map]
  simpa using hchain

/-- Where no block may stand there is none. -/
theorem Node.Built.blocks_eq_nil {n : Node} (h : n.Built good fun _ => False) : n.blocks = [] := by
  generalize hmay : (fun _ : Block => False) = may at h
  induction h with
  | element own children branches hchildren hbranches =>
    subst hmay
    rw [Node.blocks, Element.blocks_eq]
    · exact List.flatMap_eq_nil_iff.mpr fun n hn => hchildren n hn rfl
    · intro c hc b hb
      rw [Branch.blocks_eq]
      exact List.flatMap_eq_nil_iff.mpr fun n hn => hbranches c hc b hb n hn rfl
  | text => rfl
  | comment => rfl
  | placeholder h =>
    subst hmay
    exact h.elim

theorem Element.Built.branch_blocks {e : Element} (h : e.Built good may) :
    ∀ c ∈ e.chains, ∀ b ∈ c.branches, b.blocks = [] := by
  intro c hc b hb
  rw [Branch.blocks_eq]
  exact List.flatMap_eq_nil_iff.mpr fun n hn => (h.inner.2 c hc b hb n hn).blocks_eq_nil

theorem Node.Built.of_mem_blocks {n : Node} (h : n.Built good may) : ∀ b ∈ n.blocks, may b := by
  induction h with
  | element own children branches hchildren _ =>
    have hbuilt : Element.Built good _ _ := .element own children branches
    rw [Node.blocks, Element.blocks_eq hbuilt.branch_blocks]
    intro b hb
    obtain ⟨n, hn, hb⟩ := List.mem_flatMap.mp hb
    exact hchildren n hn b hb
  | text => exact nofun
  | comment => exact nofun
  | placeholder h =>
    intro b hb
    obtain rfl := List.mem_singleton.mp hb
    exact h

theorem countP_flatMap_blocks_le (token : String) {ns : List Node}
    (h : ∀ n ∈ ns, n.blocks.countP (·.placeholder.token = token) ≤ n.copies token) :
    (ns.flatMap Node.blocks).countP (·.placeholder.token = token) ≤ copiesInNodes token ns := by
  induction ns with
  | nil => exact Nat.le_refl _
  | cons n ns ih =>
    rw [List.flatMap_cons, List.countP_append, copiesInNodes]
    exact Nat.add_le_add (h n List.mem_cons_self) (ih fun m hm => h m (List.mem_cons_of_mem n hm))

/-- Every block is a copy of its placeholder. -/
theorem Node.Built.countP_blocks_le {n : Node} (h : n.Built good may) (token : String) :
    n.blocks.countP (·.placeholder.token = token) ≤ n.copies token := by
  induction h with
  | @element may e own children branches hchildren _ =>
    have hbuilt : Element.Built good may e := .element own children branches
    rw [Node.blocks, Element.blocks_eq hbuilt.branch_blocks, Node.copies, Element.copies_eq]
    exact Nat.le_trans (countP_flatMap_blocks_le token hchildren) (Nat.le_add_right _ _)
  | text => exact Nat.le_refl _
  | comment => exact Nat.le_refl _
  | @placeholder may p kind span h =>
    simp [Node.blocks, Node.copies, List.countP_cons]

end

end Chtl
