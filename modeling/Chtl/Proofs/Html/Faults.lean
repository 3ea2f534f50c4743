import Chtl.Html.Generate
import Chtl.Proofs.Style.Faults

/-!
# Where generation fails

Only evaluating fails while a page is generated, so a fault has the span of an expression or of an
element of the document.
-/

set_option autoImplicit false
set_option linter.all false

namespace Chtl.Html

variable {spans : Span → Prop}

theorem blames_resolving {α : Type} {x : Evaluation Memo α} (h : Blames spans x) :
    Blames spans (resolving x) := by
  intro s e s' hrun
  have hget : (get : Generation GenState).run.run s = (.ok s, s) := rfl
  cases hx : x.run.run s.memo with
  | mk result memo =>
    rw [resolving, run_bind_ok hget, hx] at hrun
    cases result with
    | ok a => cases hrun
    | error e' =>
      cases hrun
      exact h s.memo e memo hx

theorem blames_recording (f : Bridge → Bridge) : Blames spans (recording f) := .modify _

theorem blames_freshId (stem : IdStem) : Blames spans (freshId stem) := by
  rintro s e s' ⟨⟩

theorem blames_beginChain : Blames spans beginChain := by
  rintro s e s' ⟨⟩

theorem blames_generatedId (e : Element) : Blames spans (generatedId e) := by
  unfold generatedId
  split
  · exact .pure _
  · exact .ite (fun _ => (blames_freshId _).bind fun _ => .pure _) fun _ => .pure _

theorem blames_recordResponsive (e : Element) (id : Option String) :
    Blames spans (recordResponsive e id) := by
  unfold recordResponsive
  split
  · exact blames_recording _
  · exact .pure _

theorem blames_inTurn {gens : List (Generation (List Mark))} (h : ∀ g ∈ gens, Blames spans g) :
    Blames spans (inTurn gens) := by
  induction gens with
  | nil => exact .pure _
  | cons g gens ih =>
    obtain ⟨hfirst, hrest⟩ := List.forall_mem_cons.mp h
    exact hfirst.bind fun _ => (ih hrest).bind fun _ => .pure _

theorem blames_closed {tag : String} {empty : Bool} {content : Generation (List Mark)}
    (h : Blames spans content) : Blames spans (closed tag empty content) :=
  .ite (fun _ => .pure _) fun _ => h.bind fun _ => .pure _

theorem blames_inWrapper {empty : Bool} {condition : String} {content : Generation (List Mark)}
    (h : Blames spans content) : Blames spans (inWrapper empty condition content) :=
  .ite (fun _ => .pure _) fun _ => (blames_freshId _).bind fun _ =>
    (blames_recording _).bind fun _ => h.bind fun _ => .pure _

section

variable {r : Resolver} (hlookup : r.lookup.Blames spans) {style : StyleMap}

include hlookup

theorem blames_recordBody {binding : String → String → ConditionalBinding}
    {ds : List StyleDeclaration} (hds : ∀ d ∈ ds, d.Holds (·.All spans)) :
    Blames spans (recordBody style r.lookup binding ds) := by
  induction ds with
  | nil => exact .pure _
  | cons d ds ih =>
    obtain ⟨hd, hrest⟩ := List.forall_mem_cons.mp hds
    rw [recordBody]
    refine (blames_resolving (d.blames_staticText hlookup hd)).bind fun text => ?_
    cases text with
    | none => exact ih hrest
    | some text => exact (blames_recording _).bind fun _ => (ih hrest).bind fun _ => .pure _

theorem blames_recordBranch {target : String} {chain index : Nat} {setsAnything : Bool} {b : Branch}
    (hb : b.Holds (·.All spans)) :
    Blames spans (recordBranch r style target chain index setsAnything b.condition b.body) := by
  have hrest (js : Option String) : Blames spans (do
      let recorded ← recordBody style r.lookup
        (fun key value => ⟨target, key, js, value, chain, index⟩) b.body
      if setsAnything && !recorded then
        recording (·.recordConditional ⟨target, "", js, "", chain, index⟩)
      pure js : Generation (Option String)) :=
    (blames_recordBody hlookup hb.body).bind fun _ =>
      .ite (fun _ => (blames_recording _).bind fun _ => .pure _) fun _ => .pure _
  unfold recordBranch
  split
  · rename_i c hc
    have hlower : Blames spans (resolving (c.expr.lower style r.lookup)) :=
      blames_resolving (c.expr.blames_lower hlookup (hb.condition c hc))
    exact hlower.bind fun js => (Blames.pure (some js)).bind fun js => hrest js
  · exact (Blames.pure none).bind fun js => hrest js

end

/-! ## Nodes -/

section

variable {r : Resolver}

theorem blames_nodes (parent : Option String) {ns : List Node}
    (h : ∀ n ∈ ns, ∀ parent, Blames spans (node r parent n)) :
    ∀ g ∈ nodes r parent ns, Blames spans g := by
  induction ns with
  | nil =>
    rw [nodes]
    simp
  | cons n ns ih =>
    obtain ⟨hfirst, hrest⟩ := List.forall_mem_cons.mp h
    rw [nodes]
    exact List.forall_mem_cons.mpr ⟨hfirst parent, ih hrest⟩

theorem blames_firedBranch (id : Option String) (index : Nat) {bs : List Branch}
    (h : ∀ b ∈ bs, ∀ n ∈ b.children, ∀ parent, Blames spans (node r parent n)) :
    Blames spans (firedBranch r id index bs) := by
  induction bs generalizing index with
  | nil =>
    rw [firedBranch]
    exact .pure _
  | cons b bs ih =>
    obtain ⟨hfirst, hrest⟩ := List.forall_mem_cons.mp h
    cases index with
    | zero =>
      cases b
      rw [firedBranch]
      exact blames_inTurn (blames_nodes id hfirst)
    | succ index =>
      rw [firedBranch]
      exact ih index hrest

theorem blames_dynamicBranches (hlookup : r.lookup.Blames spans) {style : StyleMap}
    (target : String) (chain : Nat) (setsAnything : Bool) (index : Nat) (earlier : List String)
    {bs : List Branch} (hbs : ∀ b ∈ bs, b.Holds (·.All spans))
    (h : ∀ b ∈ bs, ∀ n ∈ b.children, ∀ parent, Blames spans (node r parent n)) :
    Blames spans (dynamicBranches r style target chain setsAnything index earlier bs) := by
  induction bs generalizing index earlier with
  | nil =>
    rw [dynamicBranches]
    exact .pure _
  | cons b bs ih =>
    obtain ⟨hb, hlater⟩ := List.forall_mem_cons.mp hbs
    obtain ⟨hfirst, hrest⟩ := List.forall_mem_cons.mp h
    have hbranch : Blames spans
        (recordBranch r style target chain index setsAnything b.condition b.body) :=
      blames_recordBranch hlookup hb
    cases b
    rw [dynamicBranches]
    exact hbranch.bind fun js =>
      (blames_inWrapper (blames_inTurn (blames_nodes (some target) hfirst))).bind fun _ =>
        (ih (index + 1) _ hlater hrest).bind fun _ => .pure _

theorem blames_chainsOf (hlookup : r.lookup.Blames spans) {style : StyleMap} (id : Option String)
    {cs : List Chain} (fired : List (Option Nat))
    (hcs : ∀ c ∈ cs, ∀ b ∈ c.branches, b.Holds (·.All spans))
    (h : ∀ c ∈ cs, ∀ b ∈ c.branches, ∀ n ∈ b.children, ∀ parent, Blames spans (node r parent n)) :
    ∀ c ∈ chainsOf r style id cs fired, Blames spans c.2 := by
  induction cs generalizing fired with
  | nil =>
    rw [chainsOf]
    simp
  | cons c cs ih =>
    obtain ⟨branches, anchor⟩ := c
    obtain ⟨hc, hlater⟩ := List.forall_mem_cons.mp hcs
    obtain ⟨hfirst, hrest⟩ := List.forall_mem_cons.mp h
    cases fired with
    | nil =>
      rw [chainsOf.eq_def]
      simp
    | cons own fired =>
      rw [chainsOf.eq_def]
      refine List.forall_mem_cons.mpr ⟨?_, ih fired hlater hrest⟩
      dsimp only
      refine .ite (fun _ => ?_) fun _ => ?_
      · exact blames_beginChain.bind fun chain =>
          blames_dynamicBranches hlookup _ chain _ 0 [] hc hfirst
      · cases own with
        | none => exact .pure _
        | some index => exact blames_firedBranch id index hfirst

/-- Nodes of built elements that are evaluated at such spans fail there. -/
theorem blames_node {good : Element → Prop} {may : Block → Prop} {n : Node}
    (hd : ∀ e ∈ r.document.elements, e.Evaluated spans) (hgood : ∀ e, good e → e.Evaluated spans)
    (h : n.Built good may) (parent : Option String) : Blames spans (node r parent n) := by
  have hlookup := r.blames_lookup hd
  induction h generalizing parent with
  | @element may e own _ _ hchildren hbranches =>
    have he := hgood e own
    have hresolve := r.document.blames_resolveFrom hd r.depth he he.span
    obtain ⟨nodeId, tag, attributes, children, style, chains, rules, span⟩ := e
    rw [node, element]
    refine (blames_resolving hresolve).bind fun resolved => ?_
    refine (blames_generatedId _).bind fun generated => ?_
    refine (blames_recordResponsive _ _).bind fun _ => ?_
    refine (blames_closed (blames_inTurn fun g hg => ?_)).bind fun _ => .pure _
    rcases mem_weave.mp hg with hg | ⟨c, hc, rfl⟩
    · exact blames_nodes _ hchildren g hg
    · exact blames_chainsOf hlookup _ _ he.chains hbranches c hc
  | text =>
    rw [node]
    exact .pure _
  | comment =>
    rw [node]
    exact .pure _
  | placeholder =>
    rw [node]
    refine Blames.bind ?_ fun _ => .pure _
    unfold scriptContext
    split
    · exact blames_recording _
    · exact .pure _

end

end Chtl.Html

namespace Chtl.Document

/-- A fault of a generation has a span of the document. -/
theorem span_of_generate {spans : Span → Prop} {good : Element → Prop} {may : Block → Prop}
    {d : Document} (hbuilt : ∀ n ∈ d.children, n.Built good may)
    (hgood : ∀ e, good e → e.Evaluated spans) {bridge : Bridge} {e : EvalError}
    (h : d.generate bridge = .error e) : spans e.span := by
  have hd : ∀ e ∈ d.resolver.document.elements, e.Evaluated spans := by
    intro e he
    obtain ⟨walk, hwalk, hx⟩ := mem_entered_flatten.mp he
    rw [eventsOfNodes_eq_map] at hwalk
    obtain ⟨n, hn, rfl⟩ := List.mem_map.mp hwalk
    obtain ⟨_, hown⟩ := (hbuilt n hn).entered hx
    exact hgood e hown.own
  have hnodes := Html.blames_inTurn (Html.blames_nodes (r := d.resolver) none
    fun n hn parent => Html.blames_node hd hgood (hbuilt n hn) parent)
  have hmarks : d.marks bridge = .error e := by
    cases hm : d.marks bridge with
    | ok r => simp [generate, hm, bind, Except.bind] at h
    | error e' => simpa [generate, hm, bind, Except.bind] using h
  unfold marks at hmarks
  dsimp only at hmarks
  cases hrun : (Html.inTurn (Html.nodes d.resolver none d.children)).run.run
      { bridge := bridge, ids := .ofDocument d } with
  | mk result final =>
    rw [hrun] at hmarks
    cases result with
    | ok marks => cases hmarks
    | error e' =>
      cases hmarks
      exact hnodes _ e final hrun

end Chtl.Document
