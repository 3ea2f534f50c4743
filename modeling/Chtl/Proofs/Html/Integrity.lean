import Chtl.Proofs.Html.Emitted
import Chtl.Proofs.Markup.Accounts
import Chtl.Proofs.Markup.Pieces

/-!
# Ids on a page and in the recorded facts

What is recorded for a page's code names elements by their ids. Every such id is on a start tag of
the page, and one that was generated is there once and is none of the author's. What follows
variables is recorded with the id of its element, and scripts know the element around them.
-/

set_option autoImplicit false
set_option linter.all false

namespace Chtl.Html

/-- Where a script has one copy, its context is the element around that copy. -/
theorem context_of_mem {marks : List Mark} {p : Placeholder} {parent : Option String}
    (hcopies : marks.countP (Mark.copyOf p.token) ≤ 1)
    (hmem : .placeholder p .script parent ∈ marks) :
    (Table.insertAll [] (marks.filterMap Mark.context?)).get? p.token = parent := by
  obtain ⟨before, behind, rfl⟩ := List.append_of_mem hmem
  have hother {side : List Mark} (h : side.countP (Mark.copyOf p.token) = 0) :
      (side.filterMap Mark.context?).filter (·.1 = p.token) = [] := by
    rw [List.filter_eq_nil_iff]
    intro entry hentry
    obtain ⟨m, hm, hcontext⟩ := List.mem_filterMap.mp hentry
    have hcopy := List.countP_eq_zero.mp h m hm
    unfold Mark.context? at hcontext
    split at hcontext
    · cases hcontext
      simpa [Mark.copyOf] using hcopy
    · cases hcontext
  rw [List.countP_append, List.countP_cons_of_pos (by simp [Mark.copyOf])] at hcopies
  rw [Table.get?_insertAll (by simp [Table.Sorted]), List.filterMap_append, List.filter_append,
    hother (by omega), List.nil_append]
  cases parent with
  | none =>
    rw [List.filterMap_cons_none rfl, hother (by omega)]
    rfl
  | some id =>
    have hown : Mark.context? (.placeholder p .script (some id)) = some (p.token, id) := rfl
    rw [List.filterMap_cons_some hown, List.filter_cons_of_pos (by simp), hother (by omega)]
    rfl

theorem elementId_of_mem_bindings {m : Mark} {entry : String × ResponsiveBinding}
    (h : entry ∈ m.bindings) : ∃ e generated style, m = .start e generated style ∧
      e.id?.or generated = some entry.2.elementId := by
  cases m with
  | start e generated style =>
    refine ⟨e, generated, style, rfl, ?_⟩
    rw [Mark.bindings] at h
    split at h
    · rename_i id hid
      rw [hid]
      have hentry : entry.2.elementId = id := by
        rcases List.mem_append.mp h with h | h
        · obtain ⟨a, -, ha⟩ := List.mem_filterMap.mp h
          split at ha <;> cases ha
          rfl
        · obtain ⟨x, -, hx⟩ := List.mem_filterMap.mp h
          split at hx <;> cases hx
          rfl
      rw [hentry]
    · cases h
  | _ => cases h

/-- The id of a start tag is generated if it is one of the generated ids. -/
theorem id?_eq_some_iff {m : Mark} {id : String}
    (hstart : ∀ e generated style, m = .start e generated style →
      GivenTo e generated ∧ e.id? ≠ some id) : m.id? = some id ↔ m.generated? = some id := by
  cases m with
  | start e generated style =>
    obtain ⟨hgiven, hother⟩ := hstart e generated style rfl
    have hid : Mark.id? (.start e generated style) = e.id?.or generated :=
      id?_startTag hgiven style
    rw [hid, Mark.generated?]
    cases hown : e.id? with
    | none => simp
    | some own =>
      have hnone : generated = none := by
        rw [GivenTo, hown] at hgiven
        exact hgiven
      rw [hown] at hother
      simp_all
  | wrapper own => exact Iff.rfl
  | _ => exact Iff.rfl

/-- The ids on a page agree with those in the document and in the facts that are recorded. -/
structure Integrity (d : Document) (marks : List Mark) (final : GenState) : Prop where
  responsive_ids : ∀ entry ∈ final.bridge.facts.responsive, ∀ b ∈ entry.2, b.elementId ∈ ids marks
  conditional_ids : ∀ b ∈ final.bridge.facts.conditionals, b.elementId ∈ ids marks
  rendering_ids : ∀ b ∈ final.bridge.facts.renderings, b.wrapperId ∈ ids marks
  context_ids : ∀ entry ∈ final.bridge.facts.contexts, entry.2 ∈ ids marks
  /-- No other ids than those of the author and of start tags were handed out. -/
  allocated : final.ids.taken = (generatedIds marks).reverse ++ d.elements.filterMap Element.id?
  generated : ∀ id ∈ generatedIds marks, (∃ stem n, id = IdPool.idText stem n) ∧
    (ids marks).count id = 1 ∧ ∀ e ∈ d.elements, e.id? ≠ some id
  /-- What follows variables in the elements that are written, no more and no less. -/
  responsive : final.bridge.facts.responsive.entries.Perm (marks.flatMap Mark.bindings)
  responsive_id : ∀ e generated style, .start e generated style ∈ marks →
    (∃ a ∈ e.attributes, a.value.literal? = none) ∨ (∃ x ∈ e.style, x.value.isResponsive = true) →
    ∃ id, e.id?.or generated = some id ∧
      Mark.bindings (.start e generated style) = responsiveBindings e id
  child_context : ∀ e ∈ d.elements, ∀ p span, Node.placeholder p .script span ∈ e.children →
    ∃ generated style id, .start e generated style ∈ marks ∧ e.id?.or generated = some id ∧
      final.bridge.facts.context? p.token = some id
  root_context : ∀ p span, Node.placeholder p .script span ∈ d.children →
    final.bridge.facts.context? p.token = none
  chain_id : ∀ e generated style, .start e generated style ∈ marks →
    e.chains.any Chain.isDynamic = true → (e.id?.or generated).isSome = true
  rule_id : ∀ e id, .rules e id ∈ marks → ∀ rule ∈ e.rules, '&' ∈ rule.selector.toList →
    e.classes ≠ [] ∨ id.isSome = true

section

variable {d : Document} {marks : List Mark} {final : GenState} {copies : String → Nat}

theorem Accounted.mem_ids {around : List String} {s : GenState}
    (h : Accounted (· ∈ d.elements) around copies s marks final) {e : Element}
    {generated : Option String} {style : StyleMap} (hstart : .start e generated style ∈ marks)
    {id : String} (hid : e.id?.or generated = some id) : id ∈ ids marks := by
  have hgiven := (h.starts e generated style hstart).2.1
  refine List.mem_filterMap.mpr ⟨_, hstart, ?_⟩
  exact (id?_startTag hgiven style).trans hid

/-- Marks that account for a whole document, with each placeholder at most once. -/
theorem Accounted.integrity
    (h : Accounted (· ∈ d.elements) [] copies { ids := .ofDocument d } marks final)
    (hcopies : ∀ token, marks.countP (Mark.copyOf token) ≤ 1)
    (hchild : ∀ e ∈ d.elements, ∀ p span, Node.placeholder p .script span ∈ e.children →
      ∃ m ∈ marks, Mark.Starts e m)
    (hroot : ∀ p span, Node.placeholder p .script span ∈ d.children →
      .placeholder p .script none ∈ marks) : Integrity d marks final := by
  have hresponsive : final.bridge.facts.responsive.entries.Perm (marks.flatMap Mark.bindings) := by
    rw [h.recorded.responsive]
    exact Table.entries_pushAll [] _
  have hcontexts : final.bridge.facts.contexts =
      Table.insertAll [] (marks.filterMap Mark.context?) := h.recorded.contexts
  have hliteral (id : String) (hid : id ∈ generatedIds marks) : ∀ e ∈ d.elements, e.id? ≠ some id := by
    intro e he hown
    exact h.recorded.fresh.2 id hid (List.mem_filterMap.mpr ⟨e, he, hown⟩)
  constructor
  · intro entry hentry b hb
    have hmem : (entry.1, b) ∈ final.bridge.facts.responsive.entries :=
      List.mem_flatMap.mpr ⟨entry, hentry, List.mem_map_of_mem hb⟩
    obtain ⟨m, hm, hbinding⟩ := List.mem_flatMap.mp (hresponsive.subset hmem)
    obtain ⟨e, generated, style, rfl, hid⟩ := elementId_of_mem_bindings hbinding
    exact h.mem_ids hm hid
  · obtain ⟨new, hnew, hids⟩ := h.recorded.conditionals
    rw [hnew]
    exact hids
  · intro b hb
    have hwrapper : b.wrapperId ∈ marks.filterMap Mark.wrapper? := by
      have hall := h.recorded.renderings
      rw [List.map_nil, List.nil_append] at hall
      rw [← hall]
      exact List.mem_map_of_mem hb
    obtain ⟨m, hm, hid⟩ := List.mem_filterMap.mp hwrapper
    refine List.mem_filterMap.mpr ⟨m, hm, ?_⟩
    cases m with
    | wrapper id => exact hid
    | _ => cases hid
  · intro entry hentry
    rw [hcontexts] at hentry
    have hmem := (Table.mem_insertAll hentry).resolve_left (List.not_mem_nil)
    obtain ⟨m, hm, hcontext⟩ := List.mem_filterMap.mp hmem
    refine h.recorded.parents entry.2 (List.mem_filterMap.mpr ⟨m, hm, ?_⟩)
    unfold Mark.context? at hcontext
    split at hcontext
    · cases hcontext
      rfl
    · cases hcontext
  · exact h.recorded.taken
  · intro id hid
    refine ⟨h.recorded.spelled id hid, ?_, hliteral id hid⟩
    have hgenerated : (generatedIds marks).count id = 1 :=
      List.count_eq_one_of_mem h.recorded.fresh.1 hid
    rw [← hgenerated, ids, generatedIds, List.count_filterMap, List.count_filterMap]
    refine List.countP_congr fun m hm => ?_
    simp only [beq_iff_eq]
    refine id?_eq_some_iff ?_
    rintro e generated style rfl
    obtain ⟨he, hgiven, -⟩ := h.starts e generated style hm
    exact ⟨hgiven, hliteral id hid e he⟩
  · exact hresponsive
  · intro e generated style hstart hfollows
    have hneeds : needsId e = true := (needsId_iff e).mpr (hfollows.imp_right .inl)
    have hsome := (h.starts e generated style hstart).2.1.isSome_of_needsId hneeds
    obtain ⟨id, hid⟩ := Option.isSome_iff_exists.mp hsome
    exact ⟨id, hid, by rw [Mark.bindings, hid]⟩
  · intro e he p span hp
    obtain ⟨_, hm, generated, style, rfl⟩ := hchild e he p span hp
    obtain ⟨-, hgiven, hscripts⟩ := h.starts e generated style hm
    have hneeds : needsId e = true :=
      (needsId_iff e).mpr (.inr (.inr (.inr (.inl ⟨_, hp, rfl⟩))))
    obtain ⟨id, hid⟩ := Option.isSome_iff_exists.mp (hgiven.isSome_of_needsId hneeds)
    refine ⟨generated, style, id, hm, hid, ?_⟩
    rw [Facts.context?, hcontexts, context_of_mem (hcopies p.token) (hscripts p span hp), hid]
  · intro p span hp
    rw [Facts.context?, hcontexts, context_of_mem (hcopies p.token) (hroot p span hp)]
  · intro e generated style hstart hdynamic
    exact (h.starts e generated style hstart).2.1.isSome_of_needsId
      ((needsId_iff e).mpr (.inr (.inr (.inl hdynamic))))
  · intro e id hrules rule hrule hown
    obtain ⟨generated, style, hstart, rfl⟩ := h.rules e id hrules
    by_cases hclasses : e.classes = []
    · have hneeds : needsId e = true :=
        (needsId_iff e).mpr (.inr (.inr (.inr (.inr ⟨⟨rule, hrule, hown⟩, hclasses⟩))))
      exact .inr ((h.starts e generated style hstart).2.1.isSome_of_needsId hneeds)
    · exact .inl hclasses

end

theorem run_of_marks {d : Document} {start bridge : Bridge} {marks : List Mark}
    (h : d.marks start = .ok (marks, bridge)) :
    ∃ final, (inTurn (nodes d.resolver none d.children)).run.run
      { bridge := start, ids := .ofDocument d } = (.ok marks, final) ∧ final.bridge = bridge := by
  unfold Document.marks at h
  dsimp only at h
  cases hrun : (inTurn (nodes d.resolver none d.children)).run.run
      { bridge := start, ids := .ofDocument d } with
  | mk result final =>
    rw [hrun] at h
    cases result with
    | error e => cases h
    | ok written =>
      cases h
      exact ⟨final, rfl, rfl⟩

/-- The page of a unit whose source holds no mark, and the facts that are recorded with it, agree on
the ids of elements. -/
theorem generate_integrity {source : List Char} {scanned : Scanned} {d : Document} {page : Page}
    {bridge : Bridge} (hmark : ¬ Placeholder.mark <:+: source) (hs : scan source = .ok scanned)
    (hd : Document.ofScanned scanned = .ok d) (hg : d.generate {} = .ok (page, bridge)) :
    ∃ marks final,
      (inTurn (nodes d.resolver none d.children)).run.run { ids := .ofDocument d } =
        (.ok marks, final) ∧
      page = .ofMarks marks ∧ bridge = final.bridge ∧ Integrity d marks final := by
  obtain ⟨⟨marks, recorded⟩, hmarks, hpage⟩ := bind_eq_ok_iff.mp hg
  cases hpage
  obtain ⟨final, hrun, rfl⟩ := run_of_marks hmarks
  refine ⟨marks, final, hrun, rfl, rfl, ?_⟩
  have honce := Document.copies_le_one hmark hs hd
  have hwalks : ∀ walk ∈ eventsOfNodes d.children, ∀ x ∈ entered walk, x ∈ d.elements :=
    fun walk hwalk x hx => mem_entered_flatten.mpr ⟨walk, hwalk, hx⟩
  have hwritten := Writes.inTurn (writes_nodes d.resolver none d.children hwalks) _ marks final hrun
  refine hwritten.integrity ?_ ?_ ?_
  · intro token
    have hle := hwritten.copies token
    rw [sum_nodeBudgets] at hle
    exact Nat.le_trans hle (honce token)
  · intro e he p span hp
    obtain ⟨walk, hwalk, hx⟩ := mem_entered_flatten.mp he
    obtain ⟨g, hg, hemits⟩ := emits_start_nodes d.resolver hp none d.children walk hwalk hx
      (honce p.token)
    exact hemits.inTurn hg _ marks final hrun
  · intro p span hp
    have hmem : node d.resolver none (.placeholder p .script span) ∈
        nodes d.resolver none d.children := by
      rw [nodes_eq_map]
      exact List.mem_map_of_mem hp
    obtain ⟨_, hm, rfl⟩ :=
      (emits_placeholder d.resolver none p .script span).inTurn hmem _ marks final hrun
    exact hm

/-- An author's id that a generated one makes way for, a dynamic branch, and a script inside an
element and one outside. -/
theorem generate_integrity_generated :
    ∃ source scanned d page bridge, source =
        "p \x7b id: chtl-el-0; \x7d div \x7b class: $c$; script \x7b \x7d ".toList ++
          "if \x7b condition: \x7b\x7bx\x7d\x7d > 1, b \x7b \x7d \x7d \x7d script \x7b \x7d".toList ∧
      scan source = .ok scanned ∧ Document.ofScanned scanned = .ok d ∧
      d.generate {} = .ok (page, bridge) ∧
      bridge.facts.renderings.map (·.wrapperId) = ["chtl-render-0"] ∧
      bridge.facts.contexts.map (·.2) = ["chtl-el-1"] ∧
      ∃ marks final,
        (inTurn (nodes d.resolver none d.children)).run.run { ids := .ofDocument d } =
          (.ok marks, final) ∧
        page = .ofMarks marks ∧ bridge = final.bridge ∧ Integrity d marks final := by
  obtain ⟨source, hsource⟩ : ∃ source : List Char, source =
      "p \x7b id: chtl-el-0; \x7d div \x7b class: $c$; script \x7b \x7d ".toList ++
        "if \x7b condition: \x7b\x7bx\x7d\x7d > 1, b \x7b \x7d \x7d \x7d script \x7b \x7d".toList :=
    ⟨_, rfl⟩
  have hmark : ¬ Placeholder.mark <:+: source := by
    rw [hsource, String.toList_ofList, String.toList_ofList]
    decide +kernel
  have hok : ∃ scanned, scan source = .ok scanned ∧ ∃ d, Document.ofScanned scanned = .ok d ∧
      ∃ r, d.generate {} = .ok r ∧
        r.2.facts.renderings.map (·.wrapperId) = ["chtl-render-0"] ∧
        r.2.facts.contexts.map (·.2) = ["chtl-el-1"] := by
    rw [hsource, String.toList_ofList, String.toList_ofList]
    decide +kernel
  obtain ⟨scanned, hs, d, hd, ⟨page, bridge⟩, hg, hwrapper, hcontext⟩ := hok
  have hintegrity := generate_integrity hmark hs hd hg
  exact ⟨source, scanned, d, page, bridge, hsource, hs, hd, hg, hwrapper, hcontext, hintegrity⟩

end Chtl.Html
