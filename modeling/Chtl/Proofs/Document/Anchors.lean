import Chtl.Proofs.Document.Numbers
import Chtl.Proofs.Markup.Building

/-!
# Chains and their anchors

A chain is anchored behind the children that are there when it is read, and children only come at
the end. So the chains of an element stand in the order of their anchors, none behind the last
child, and a walk meets each of them right behind the children in front of which it was written. The
walk, the page and the page's code take chains to be so and do not look.
-/

set_option autoImplicit false
set_option linter.all false

namespace Chtl

/-- The chains stand in the order of their anchors, and none behind the last child. -/
structure Element.Anchored (e : Element) : Prop where
  ordered : (e.chains.map (·.anchor)).Pairwise (· ≤ ·)
  within : ∀ c ∈ e.chains, c.anchor ≤ e.children.length

/-- The chains of an element as everyone behind the reader takes them: anchored, each with a
condition in front and at most its last branch without one, and nothing in them that follows a
variable. -/
structure Element.Chained (e : Element) : Prop extends e.Anchored where
  head : ∀ c ∈ e.chains, ∃ b ∈ c.branches.head?, b.condition.isSome
  earlier : ∀ c ∈ e.chains, ∀ b ∈ c.branches.dropLast, b.condition.isSome
  static : ∀ c ∈ e.chains, ∀ b ∈ c.branches, ∀ d ∈ b.body, d.value.isResponsive = false

theorem Element.length_children_unnumbered (e : Element) :
    e.unnumbered.children.length = e.children.length := by
  cases e
  rw [unnumbered, unnumberedNodes_eq_map, List.length_map]

theorem Element.anchors_unnumbered (e : Element) :
    e.unnumbered.chains.map (·.anchor) = e.chains.map (·.anchor) := by
  cases e
  rw [unnumbered, unnumberedChains_eq_map, List.map_map]
  exact List.map_congr_left fun c _ => c.anchor_unnumbered

namespace Element.Anchored

variable {e : Element}

/-- Only the number of the children and the anchors count. -/
theorem congr (h : e.Anchored) {e' : Element}
    (hchildren : e'.children.length = e.children.length)
    (hanchors : e'.chains.map (·.anchor) = e.chains.map (·.anchor)) : e'.Anchored where
  ordered := hanchors ▸ h.ordered
  within := by
    have hall : ∀ i ∈ e'.chains.map (·.anchor), i ≤ e'.children.length := by
      rw [hanchors, hchildren]
      exact List.forall_mem_map.mpr h.within
    exact List.forall_mem_map.mp hall

/-- A step that leaves children and chains as they are. -/
theorem same (h : e.Anchored) {e' : Element}
    (hsame : e'.children = e.children ∧ e'.chains = e.chains) : e'.Anchored :=
  h.congr (congrArg List.length hsame.1) (congrArg (List.map _) hsame.2)

/-- Children come behind all chains. -/
theorem addChildren (h : e.Anchored) (nodes : List Node) : (e.addChildren nodes).Anchored where
  ordered := h.ordered
  within c hc := by
    rw [Element.addChildren, List.length_append]
    exact Nat.le_add_right_of_le (h.within c hc)

/-- A chain comes behind all children. -/
theorem addChain (h : e.Anchored) (branches : List Branch) :
    (e.addChain ⟨branches, e.children.length⟩).Anchored where
  ordered := by
    rw [Element.addChain, List.map_append, List.map_singleton, List.pairwise_append]
    refine ⟨h.ordered, List.pairwise_singleton _ _, fun anchor hanchor last hlast => ?_⟩
    obtain ⟨c, hc, rfl⟩ := List.mem_map.mp hanchor
    rw [List.mem_singleton.mp hlast]
    exact h.within c hc
  within := List.forall_mem_append.mpr ⟨h.within, by simp [Element.addChain]⟩

theorem renumber (h : e.Anchored) (next : Nat) : (e.renumber next).1.Anchored := by
  have hsame := e.unnumbered_renumber next
  refine h.congr ?_ ?_
  · rw [← length_children_unnumbered, hsame, length_children_unnumbered]
  · rw [← anchors_unnumbered, hsame, anchors_unnumbered]

end Element.Anchored

theorem kept_anchored (asked : Asked) : Kept asked Element.Anchored where
  opened _ _ _ _ _ := ⟨.nil, List.forall_mem_nil _⟩
  closed _ _ _ h := h.same ⟨rfl, rfl⟩
  addChildren _ nodes h := h.addChildren nodes
  setAttribute e a _ _ h := h.same (e.inner_setAttribute a)
  setDeclaration e d _ _ h := h.same (e.inner_setDeclaration d)
  addRule e r h := h.same (e.inner_addRule r)
  addChain _ branches h _ _ := h.addChain branches
  renumber _ next h := h.renumber next

/-! ## Where a walk meets a chain -/

section

variable {α β : Type} {index : Nat}

theorem lt_of_mem_dropWhile {chains : List (Nat × β)}
    (h : (chains.map (·.1)).Pairwise (· ≤ ·)) {c : Nat × β}
    (hc : c ∈ chains.dropWhile fun c => decide (c.1 ≤ index)) : index < c.1 := by
  induction chains with
  | nil => cases hc
  | cons d chains ih =>
    obtain ⟨hfirst, hrest⟩ := List.pairwise_cons.mp h
    rw [List.dropWhile_cons] at hc
    split_ifs at hc with hd
    · exact ih hrest hc
    · have hlt : index < d.1 := by simpa using hd
      rcases List.mem_cons.mp hc with rfl | hc
      · exact hlt
      · exact Nat.lt_of_lt_of_le hlt (hfirst c.1 (List.mem_map_of_mem hc))

theorem getLeft_before_inr {chains : List (Nat × β)} {before after : List (α ⊕ β)} {b : β}
    (h : (chains.map fun c => (c.1, (.inr c.2 : α ⊕ β))).map (·.2) = before ++ .inr b :: after) :
    before.filterMap Sum.getLeft? = [] ∧ ∃ anchor, (anchor, b) ∈ chains := by
  have hnone : (before ++ .inr b :: after).filterMap Sum.getLeft? = [] :=
    h ▸ filterMap_getLeft_inr chains
  rw [List.filterMap_append] at hnone
  refine ⟨(List.append_eq_nil_iff.mp hnone).1, ?_⟩
  have hb : .inr b ∈ before ++ .inr b :: after := by simp
  rw [← h, List.map_map] at hb
  obtain ⟨c, hc, hpiece⟩ := List.mem_map.mp hb
  exact ⟨c.1, Sum.inr.inj hpiece ▸ hc⟩

/-- In front of a piece that is woven in stand as many children as its anchor says. -/
theorem children_before_weave {children : List α} {chains : List (Nat × β)}
    (hordered : (chains.map (·.1)).Pairwise (· ≤ ·))
    {before after : List (α ⊕ β)} {b : β}
    (h : weave index (children.map .inl) (chains.map fun c => (c.1, .inr c.2)) =
      before ++ .inr b :: after) :
    ∃ anchor, (anchor, b) ∈ chains ∧
      before.filterMap Sum.getLeft? = children.take (anchor - index) := by
  induction children generalizing index chains before with
  | nil =>
    obtain ⟨hnone, anchor, hc⟩ := getLeft_before_inr h
    exact ⟨anchor, hc, by rw [List.take_nil, hnone]⟩
  | cons child children ih =>
    rw [List.map_cons, weave, List.takeWhile_map, List.dropWhile_map] at h
    rcases List.append_eq_append_iff.mp h with ⟨pieces, rfl, hrest⟩ | ⟨pieces, hnear, hrest⟩
    · -- the piece stands behind the child
      cases pieces with
      | nil => cases hrest
      | cons piece pieces =>
        injection hrest with hchild hrest
        have hfar : (chains.dropWhile fun c => decide (c.1 ≤ index)).Sublist chains :=
          List.dropWhile_sublist _
        obtain ⟨anchor, hmem, htake⟩ := ih (hordered.sublist (hfar.map _)) hrest
        have hlt : index < anchor := lt_of_mem_dropWhile hordered hmem
        have hmore : anchor - index = anchor - (index + 1) + 1 := by omega
        refine ⟨anchor, hfar.subset hmem, ?_⟩
        rw [List.filterMap_append, filterMap_getLeft_inr, List.nil_append, ← hchild,
          List.filterMap_cons, Sum.getLeft?_inl, htake, hmore, List.take_succ_cons]
    · -- the piece stands in front of it
      obtain ⟨more, hmore⟩ : ∃ more, pieces = .inr b :: more := by
        cases pieces with
        | nil => cases hrest
        | cons piece pieces =>
          injection hrest with hpiece
          exact ⟨pieces, by rw [hpiece]⟩
      obtain ⟨hnone, anchor, hmem⟩ := getLeft_before_inr (hmore ▸ hnear)
      have hle : anchor ≤ index := by simpa using List.all_eq_true.mp List.all_takeWhile _ hmem
      refine ⟨anchor, (List.takeWhile_sublist _).subset hmem, ?_⟩
      rw [hnone, Nat.sub_eq_zero_of_le hle, List.take_zero]

end

/-- A walk meets a chain right behind the children that its anchor counts. -/
theorem Element.Anchored.children_before {e : Element} (h : e.Anchored) {c : Chain}
    {before after : List (Node ⊕ Chain)} (hc : e.content = before ++ .inr c :: after) :
    before.filterMap Sum.getLeft? = e.children.take c.anchor ∧
      (before.filterMap Sum.getLeft?).length = c.anchor := by
  have hordered : ((e.chains.map fun c => (c.anchor, c)).map (·.1)).Pairwise (· ≤ ·) := by
    rw [List.map_map]
    exact h.ordered
  have hweave : weave 0 (e.children.map .inl)
      ((e.chains.map fun c => (c.anchor, c)).map fun c => (c.1, .inr c.2)) =
        before ++ .inr c :: after := by
    rw [List.map_map]
    exact hc
  obtain ⟨anchor, hanchor, htake⟩ := children_before_weave hordered hweave
  rw [Nat.sub_zero] at htake
  obtain ⟨_, -, heq⟩ := List.mem_map.mp hanchor
  cases heq
  have hmem : c ∈ e.chains := Element.inr_mem_content.mp (hc ▸ by simp)
  rw [htake, List.length_take, Nat.min_eq_left (h.within c hmem)]
  exact ⟨rfl, rfl⟩

namespace Document

variable {source : List Char} {scanned : Scanned} {d : Document}

/-- In every element of a document, copies of templates and elements in branches included, the
chains are as they are taken to be. -/
theorem chained_of_ofScanned (hs : scan source = .ok scanned) (h : ofScanned scanned = .ok d) :
    ∀ e ∈ d.elements, e.Chained := by
  intro e he
  obtain ⟨may, hbuilt⟩ := formed_of_ofScanned hs h he
  have hshaped := hbuilt.own.chains
  exact
    { toAnchored := kept_of_ofScanned hs (kept_anchored _) h he
      head := fun c hc => (hshaped c hc).head
      earlier := fun c hc => (hshaped c hc).earlier
      static := fun c hc => (hshaped c hc).static }

/-- A copy in which a text stands in front of a chain of two branches and another copy behind it, in
front of a second chain. -/
theorem chained_of_ofScanned_copies :
    ∃ source scanned d, source =
        "[Template] @Element I \x7b i \x7b \x7d \x7d [Template] @Element T \x7b div \x7b text: a; ".toList ++
          "if \x7b condition: 1 > 0, color: red, b \x7b \x7d \x7d else \x7b width: 1px, \x7d ".toList ++
          "@Element I; if \x7b condition: 3 > 1, \x7d \x7d \x7d @Element T;".toList ∧
      scan source = .ok scanned ∧ ofScanned scanned = .ok d ∧
      (d.elements.map fun e => (e.tag, e.children.length, e.chains.map (·.anchor))) =
        [("div", 2, [1, 2]), ("b", 0, []), ("i", 0, [])] ∧
      ∀ e ∈ d.elements, e.Chained := by
  obtain ⟨source, hsource⟩ : ∃ source : List Char, source =
      "[Template] @Element I \x7b i \x7b \x7d \x7d [Template] @Element T \x7b div \x7b text: a; ".toList ++
        "if \x7b condition: 1 > 0, color: red, b \x7b \x7d \x7d else \x7b width: 1px, \x7d ".toList ++
        "@Element I; if \x7b condition: 3 > 1, \x7d \x7d \x7d @Element T;".toList :=
    ⟨_, rfl⟩
  have hok : ∃ scanned, scan source = .ok scanned ∧ ∃ d, ofScanned scanned = .ok d ∧
      (d.elements.map fun e => (e.tag, e.children.length, e.chains.map (·.anchor))) =
        [("div", 2, [1, 2]), ("b", 0, []), ("i", 0, [])] := by
    rw [hsource, String.toList_ofList, String.toList_ofList, String.toList_ofList]
    decide +kernel
  obtain ⟨scanned, hs, d, hd, hanchors⟩ := hok
  exact ⟨source, scanned, d, hsource, hs, hd, hanchors, chained_of_ofScanned hs hd⟩

end Document

end Chtl
