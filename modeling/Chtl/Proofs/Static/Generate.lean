import Chtl.Proofs.Outcome
import Chtl.Proofs.Static.Document

/-!
# Generating a static page

Elements without declarations and chains have empty styles, and nothing in them is recorded. So a
document that represents a forest is written as the page of the forest, and the facts stay empty.
-/

set_option autoImplicit false
set_option linter.all false

namespace Chtl.Static

open Html

/-- Resolving has met empty styles only. -/
structure Quiet (m : Memo) : Prop where
  resolved : ∀ entry ∈ m.resolved, entry.2 = {}
  inProgress : m.inProgress = []

theorem computeStyle_bare {σ : Type} (lookup : Lookup σ) {e : Element} (hstyle : e.style = [])
    (hchains : e.chains = []) : e.computeStyle lookup = pure {} := by
  rw [Element.computeStyle, hstyle, hchains]
  rfl

theorem mem_of_lookup {table : List (Nat × ResolvedStyle)} {id : Nat} {style : ResolvedStyle}
    (h : table.lookup id = some style) : (id, style) ∈ table := by
  obtain ⟨front, back, rfl, -⟩ := List.lookup_eq_some_iff.mp h
  simp

theorem resolve_bare (r : Resolver) {e : Element} (hstyle : e.style = []) (hchains : e.chains = [])
    {m : Memo} (hm : Quiet m) : ∃ m', (r.resolve e).run.run m = (.ok {}, m') ∧ Quiet m' := by
  obtain ⟨depth, hdepth⟩ : ∃ n, r.depth = n + 1 :=
    ⟨r.depth - 1, by have := r.elements_lt_depth; omega⟩
  have hget : (get : Evaluation Memo Memo).run.run m = (.ok m, m) := rfl
  unfold Resolver.resolve
  rw [hdepth, Document.resolveFrom, run_bind_ok hget]
  cases hfound : m.resolved.lookup e.nodeId with
  | some done =>
    have hempty : done = {} := hm.resolved _ (mem_of_lookup hfound)
    rw [hempty]
    exact ⟨m, rfl, hm⟩
  | none =>
    have hpath : m.inProgress.contains e.nodeId = false := by simp [hm.inProgress]
    rw [hpath, computeStyle_bare _ hstyle hchains]
    refine ⟨{ m with resolved := (e.nodeId, {}) :: m.resolved }, rfl, ?_, hm.inProgress⟩
    intro entry hentry
    rcases List.mem_cons.mp hentry with rfl | hentry
    · rfl
    · exact hm.resolved entry hentry

/-- Nothing has been recorded either. -/
structure Still (s : GenState) : Prop where
  memo : Quiet s.memo
  bridge : s.bridge = {}

/-- The generator gives a good value and records nothing. -/
def Yields {α : Type} (g : Generation α) (good : α → Prop) : Prop :=
  ∀ s, Still s → ∃ a s', g.run.run s = (.ok a, s') ∧ Still s' ∧ good a

namespace Yields

variable {α β : Type}

theorem pure {a : α} {good : α → Prop} (h : good a) : Yields (Pure.pure a) good :=
  fun s hs => ⟨a, s, rfl, hs, h⟩

theorem bind {x : Generation α} {f : α → Generation β} {good : α → Prop} {fine : β → Prop}
    (hx : Yields x good) (hf : ∀ a, good a → Yields (f a) fine) : Yields (x >>= f) fine := by
  intro s hs
  obtain ⟨a, s', hrun, hs', ha⟩ := hx s hs
  obtain ⟨b, s'', hrun', hs'', hb⟩ := hf a ha s' hs'
  exact ⟨b, s'', by rw [run_bind_ok hrun, hrun'], hs'', hb⟩

theorem resolving (r : Resolver) {e : Element} (hstyle : e.style = []) (hchains : e.chains = []) :
    Yields (Html.resolving (r.resolve e)) (· = {}) := by
  intro s hs
  obtain ⟨m, hrun, hm⟩ := resolve_bare r hstyle hchains hs.memo
  have hget : (get : Generation GenState).run.run s = (.ok s, s) := rfl
  refine ⟨{}, { s with memo := m }, ?_, ⟨hm, hs.bridge⟩, rfl⟩
  rw [Html.resolving, run_bind_ok hget, hrun]
  rfl

end Yields

/-- The attributes of an element are the literals of a forest. -/
def Carries (e : Element) (attributes : Attributes) : Prop :=
  e.attributes.map (fun a => (a.name, a.value)) =
    attributes.entries.map fun a => (a.1, AttributeValue.literal a.2)

theorem Carries.literal {e : Element} {attributes : Attributes} (h : Carries e attributes)
    {a : Attribute} (ha : a ∈ e.attributes) : ∃ value, a.value = .literal value := by
  have hpair : (a.name, a.value) ∈ e.attributes.map fun a => (a.name, a.value) :=
    List.mem_map_of_mem ha
  rw [h] at hpair
  obtain ⟨b, -, hb⟩ := List.mem_map.mp hpair
  exact ⟨b.2, (congrArg Prod.snd hb).symm⟩

theorem map_eq_map_of_map_eq {α β γ δ : Type} {p : α → γ} {q : β → γ} {f : α → δ} {g : β → δ}
    {xs : List α} {ys : List β} (h : xs.map p = ys.map q)
    (hfg : ∀ x, ∀ y ∈ ys, p x = q y → f x = g y) : xs.map f = ys.map g := by
  induction xs generalizing ys with
  | nil =>
    obtain rfl : ys = [] := by simpa using h.symm
    rfl
  | cons x xs ih =>
    cases ys with
    | nil => cases h
    | cons y ys =>
      obtain ⟨hxy, hrest⟩ := List.cons.inj h
      rw [List.map_cons, List.map_cons, hfg x y List.mem_cons_self hxy,
        ih hrest fun x' y' hy' => hfg x' y' (List.mem_cons_of_mem y hy')]

/-- What is made of the names and values of an element is made of those of the forest. -/
theorem Carries.map_eq {e : Element} {attributes : Attributes} (h : Carries e attributes) {β : Type}
    {f : Attribute → β} {g : String × String → β}
    (hfg : ∀ a, ∀ b ∈ attributes.entries, a.name = b.1 → a.value = .literal b.2 → f a = g b) :
    e.attributes.map f = attributes.entries.map g :=
  map_eq_map_of_map_eq h fun a b hb hab => by
    obtain ⟨hname, hvalue⟩ := Prod.mk.inj hab
    exact hfg a b hb hname hvalue

theorem responsiveBindings_bare {e : Element} {attributes : Attributes} (h : Carries e attributes)
    (hstyle : e.style = []) (id : String) : responsiveBindings e id = [] := by
  rw [responsiveBindings, hstyle, List.filterMap_nil, List.append_nil, List.filterMap_eq_nil_iff]
  intro a ha
  obtain ⟨value, hvalue⟩ := h.literal ha
  rw [hvalue]

theorem join_map_empty {α : Type} (items : List α) : String.join (items.map fun _ => "") = "" := by
  rw [← String.toList_inj, String.toList_join]
  simp

theorem ne_style_of_mem {attributes : Attributes} {a : String × String}
    (ha : a ∈ attributes.entries) : a.1 ≠ "style" := by
  intro h
  exact attributes.notKeyword a ha (by simp [h])

theorem startTag_bare {e : Element} {attributes : Attributes} (h : Carries e attributes) :
    (startTag e none {}).text = "<" ++ e.tag ++
      String.join (attributes.entries.map fun a => attributeText a.1 a.2) ++ ">" := by
  have hwritten : e.attributes.filterMap writtenAttribute? = attributes.entries := by
    have hmap : e.attributes.map writtenAttribute? = attributes.entries.map some := by
      apply h.map_eq
      intro a b hb hname hvalue
      simp [writtenAttribute?, hname, hvalue, AttributeValue.literal?, ne_style_of_mem hb]
    have hall := congrArg (List.filterMap fun x : Option (String × String) => x) hmap
    simpa [List.filterMap_map, Function.comp_def] using hall
  have hown : String.join (e.attributes.map ownStyleText) = "" := by
    rw [h.map_eq (g := fun _ => ""), join_map_empty]
    intro a b hb hname hvalue
    simp [ownStyleText, hname, hvalue, AttributeValue.literal?, ne_style_of_mem hb]
  simp [startTag, Tag.text, hwritten, hown, StyleMap.styleText]

theorem not_isScript_of_represents {f : Forest} {nodes : List Node} (h : Represents f nodes) :
    nodes.any needsId.isScript = false := by
  induction h with
  | nil => rfl
  | text _ ih => simpa [needsId.isScript] using ih
  | element _ _ _ _ _ _ ih => simpa [needsId.isScript] using ih

theorem needsId_bare {e : Element} {attributes : Attributes} {children : Forest}
    (h : Carries e attributes) (hchildren : Represents children e.children)
    (hbare : e.style = [] ∧ e.chains = [] ∧ e.rules = []) : needsId e = false := by
  obtain ⟨hstyle, hchains, hrules⟩ := hbare
  have hliteral : (e.attributes.any fun a => a.value.literal?.isNone) = false := by
    rw [List.any_eq_false]
    intro a ha
    obtain ⟨value, hvalue⟩ := h.literal ha
    simp [hvalue, AttributeValue.literal?]
  rw [needsId, hliteral, hstyle, hchains, hrules, not_isScript_of_represents hchildren]
  rfl

theorem weave_nil {α : Type} (index : Nat) (children : List α) :
    weave index children [] = children := by
  induction children generalizing index with
  | nil => rfl
  | cons child children ih => simp [weave, ih]

/-- Marks of a page without rules. -/
def Writes (html : String) (marks : List Mark) : Prop := Page.ofMarks marks = ⟨html, ""⟩

theorem Writes.nil : Writes "" [] := rfl

theorem Writes.append {html html' : String} {marks marks' : List Mark} (h : Writes html marks)
    (h' : Writes html' marks') : Writes (html ++ html') (marks ++ marks') := by
  unfold Writes Page.ofMarks at h h' ⊢
  obtain ⟨hhtml, hcss⟩ := Page.mk.inj h
  obtain ⟨hhtml', hcss'⟩ := Page.mk.inj h'
  simp [String.join_append, hhtml, hcss, hhtml', hcss']

theorem Writes.single {m : Mark} (h : m.css = "") : Writes m.html [m] := by
  simp [Writes, Page.ofMarks, h]

theorem isEmpty_of_represents {f : Forest} {nodes : List Node} (h : Represents f nodes) :
    nodes.isEmpty = f.isEmpty := by
  cases h <;> rfl

/-- Between the tags of an element stand its children; a void element without any ends at once. -/
theorem yields_closed (r : Resolver) (id : Option String) (tag : String) {nodes : List Node}
    {children : Forest} (hchildren : Represents children nodes)
    (h : Yields (inTurn (Html.nodes r id nodes)) (Writes children.html)) :
    Yields (closed tag (nodes.isEmpty && List.isEmpty ([] : List Chain))
        (inTurn (weave 0 (Html.nodes r id nodes) [])))
      (Writes (if voidTags.contains tag && children.isEmpty then ""
        else children.html ++ "</" ++ tag ++ ">")) := by
  unfold closed
  rw [isEmpty_of_represents hchildren, List.isEmpty_nil, Bool.and_true]
  split_ifs with hvoid
  · exact Yields.pure Writes.nil
  · rw [weave_nil]
    refine h.bind ?_
    intro inner hinner
    have hstop : Writes (endTag tag) [.stop tag] := Writes.single rfl
    have hboth := hinner.append hstop
    rw [endTag, ← String.append_assoc, ← String.append_assoc] at hboth
    exact Yields.pure hboth

theorem yields_element (r : Resolver) {e : Element} {tag : Tag} {attributes : Attributes}
    {children : Forest} (htag : e.tag = tag.name) (hattributes : Carries e attributes)
    (hchildren : Represents children e.children)
    (hbare : e.style = [] ∧ e.chains = [] ∧ e.rules = [])
    (h : ∀ parent, Yields (inTurn (Html.nodes r parent e.children)) (Writes children.html)) :
    Yields (Html.element r e) (Writes (Forest.element tag attributes children .nil).html) := by
  have hneeds := needsId_bare hattributes hchildren hbare
  have hbindings := responsiveBindings_bare hattributes hbare.1
  have hopened := startTag_bare hattributes
  obtain ⟨nodeId, name, attrs, nodes, style, chains, rules, span⟩ := e
  dsimp only at htag hbare hchildren h
  obtain ⟨rfl, rfl, rfl⟩ := hbare
  have hcontent (id : Option String) := yields_closed r id name hchildren (h id)
  have hgenerated :
      Yields (generatedId ⟨nodeId, name, attrs, nodes, [], [], [], span⟩) (· = none) := by
    unfold generatedId
    split
    · exact Yields.pure rfl
    · rw [hneeds]
      exact Yields.pure rfl
  have hrecord (id : Option String) :
      Yields (recordResponsive ⟨nodeId, name, attrs, nodes, [], [], [], span⟩ id) fun _ => True := by
    cases id with
    | none => exact Yields.pure trivial
    | some id =>
      intro s hs
      refine ⟨(), s, ?_, hs, trivial⟩
      rw [recordResponsive, hbindings]
      rfl
  rw [Html.element]
  refine (Yields.resolving r rfl rfl).bind ?_
  rintro resolved rfl
  refine hgenerated.bind ?_
  rintro generated rfl
  refine (hrecord _).bind ?_
  intro _ _
  refine (hcontent _).bind ?_
  intro content hwritten
  refine Yields.pure ?_
  have hstart : Writes _ [.start ⟨nodeId, name, attrs, nodes, [], [], [], span⟩ none {}] :=
    Writes.single rfl
  have hrules (id : Option String) :
      Writes "" [.rules ⟨nodeId, name, attrs, nodes, [], [], [], span⟩ id] := Writes.single rfl
  have hpage : (Forest.element tag attributes children .nil).html =
      (startTag ⟨nodeId, name, attrs, nodes, [], [], [], span⟩ none {}).text ++
        (if voidTags.contains name && children.isEmpty then ""
          else children.html ++ "</" ++ name ++ ">") ++ "" := by
    rw [hopened, Forest.html, Forest.html, htag]
  rw [hpage]
  exact (hstart.append hwritten).append (hrules _)

theorem Forest.html_element (tag : Tag) (attributes : Attributes) (children rest : Forest) :
    (Forest.element tag attributes children rest).html =
      (Forest.element tag attributes children .nil).html ++ rest.html := by
  simp [Forest.html]

/-- Nodes that represent a forest are written as its page. -/
theorem yields_nodes (r : Resolver) {f : Forest} {nodes : List Node} (h : Represents f nodes)
    (parent : Option String) : Yields (inTurn (Html.nodes r parent nodes)) (Writes f.html) := by
  induction h generalizing parent with
  | nil => exact Yields.pure Writes.nil
  | @text value rest span nodes _ ih =>
    rw [Html.nodes, inTurn, Html.node, Forest.html]
    have htext : Writes (escapeText value) [.text value] := Writes.single rfl
    refine (Yields.pure htext).bind ?_
    intro marks hmarks
    exact (ih parent).bind fun more hmore => Yields.pure (hmarks.append hmore)
  | @element tag attributes children rest e nodes htag hattributes hchildren hbare _ ih ihRest =>
    have he := yields_element r htag hattributes hchildren hbare ih
    rw [Html.nodes, inTurn, Html.node, Forest.html_element]
    exact he.bind fun marks hmarks =>
      (ihRest parent).bind fun more hmore => Yields.pure (hmarks.append hmore)

/-- A document that represents a forest is generated as the page of the forest. -/
theorem generate_represents {d : Document} {f : Forest} (h : Represents f d.children) :
    d.generate {} = .ok (⟨f.html, ""⟩, {}) := by
  have hstart : Still { bridge := {}, ids := .ofDocument d } := ⟨⟨by simp, rfl⟩, rfl⟩
  obtain ⟨marks, final, hrun, hfinal, hwrites⟩ := yields_nodes d.resolver h none _ hstart
  have hmarks : d.marks {} = .ok (marks, {}) := by
    unfold Document.marks
    dsimp only
    rw [hrun]
    dsimp only
    rw [hfinal.bridge]
  rw [Document.generate, hmarks]
  exact congrArg (fun page => Except.ok (page, ({} : Bridge))) hwrites

end Chtl.Static
