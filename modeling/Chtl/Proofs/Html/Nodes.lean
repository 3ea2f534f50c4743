import Chtl.Proofs.Html.Written

/-!
# What the nodes of a document write

The accounts of the generators for all kinds of nodes, along the recursion of the generators. The
branches of a dynamic chain are recorded for the element that owns it, which has an id because it
needs one.
-/

set_option autoImplicit false
set_option linter.all false

namespace Chtl.Html

/-- How many copies of a placeholder each of a list of nodes allows. -/
def nodeBudgets (ns : List Node) : List (String → Nat) := ns.map fun n token => n.copies token

/-- How many copies of a placeholder each chain allows, among those with a known branch. -/
def chainBudgets (cs : List Chain) (fired : List (Option Nat)) : List (Nat × (String → Nat)) :=
  (cs.zip fired).map fun c => (c.1.anchor, fun token => c.1.copies token)

theorem sum_nodeBudgets (ns : List Node) (token : String) :
    ((nodeBudgets ns).map (· token)).sum = copiesInNodes token ns := by
  induction ns with
  | nil => rfl
  | cons n ns ih =>
    rw [nodeBudgets, List.map_cons, List.map_cons, List.sum_cons, copiesInNodes]
    exact congrArg (n.copies token + ·) ih

theorem sum_chainBudgets_le (cs : List Chain) (fired : List (Option Nat)) (token : String) :
    ((chainBudgets cs fired).map fun c => c.2 token).sum ≤ copiesInChains token cs := by
  induction cs generalizing fired with
  | nil => simp [chainBudgets]
  | cons c cs ih =>
    cases fired with
    | nil => simp [chainBudgets]
    | cons first fired =>
      have hrest := ih fired
      rw [chainBudgets, List.zip_cons_cons, List.map_cons, List.map_cons, List.sum_cons,
        copiesInChains]
      exact Nat.add_le_add_left hrest _

/-- Children and chains together allow no more copies than the element has. -/
theorem sum_weave_budgets_le (index : Nat) (ns : List Node) (cs : List Chain)
    (fired : List (Option Nat)) (token : String) :
    ((weave index (nodeBudgets ns) (chainBudgets cs fired)).map (· token)).sum ≤
      copiesInNodes token ns + 2 * copiesInChains token cs := by
  have hnodes := sum_nodeBudgets ns token
  have hchains := sum_chainBudgets_le cs fired token
  have hmap := weave_map (fun f : String → Nat => f token) index (nodeBudgets ns)
    (chainBudgets cs fired)
  rw [← hmap, sum_weave, List.map_map]
  simp only [Function.comp_def]
  omega

theorem nodes_eq_map (r : Resolver) (parent : Option String) (ns : List Node) :
    nodes r parent ns = ns.map (node r parent) := by
  induction ns with
  | nil => rw [nodes, List.map_nil]
  | cons n ns ih => rw [nodes, ih, List.map_cons]

theorem emits_placeholder (r : Resolver) (parent : Option String) (p : Placeholder)
    (kind : FragmentKind) (span : Span) :
    Emits (· = .placeholder p kind parent) (node r parent (.placeholder p kind span)) := by
  intro s marks s' hrun
  rw [node] at hrun
  obtain ⟨_, middle, -, hpure⟩ := run_bind_eq_ok_iff.mp hrun
  cases hpure
  exact ⟨_, List.mem_singleton_self _, rfl⟩

section

variable {owned : Element → Prop}

/-- An element is written between its tags, and its rules after them. -/
theorem writes_opened (r : Resolver) (e : Element) (copies : String → Nat)
    (content : StyleMap → List (Option Nat) → Option String → Generation (List Mark))
    (howned : owned e)
    (h : ∀ style fired generated, GivenTo e generated →
      Writes owned (e.id?.or generated).toList copies (content style fired (e.id?.or generated)))
    (hscripts : ∀ style fired id p span, Node.placeholder p .script span ∈ e.children →
      Emits (· = .placeholder p .script id) (content style fired id)) :
    Writes owned [] copies (do
      let resolved ← resolving (r.resolve e)
      let generated ← generatedId e
      let id := e.id?.or generated
      recordResponsive e id
      let marks ← content resolved.style resolved.fired id
      pure (Mark.start e generated resolved.style :: marks ++ [Mark.rules e id])) := by
  intro s marks s' hrun
  obtain ⟨resolved, s₁, hresolved, hrun⟩ := run_bind_eq_ok_iff.mp hrun
  obtain ⟨generated, s₂, hgenerated, hrun⟩ := run_bind_eq_ok_iff.mp hrun
  obtain ⟨_, s₃, hrecord, hrun⟩ := run_bind_eq_ok_iff.mp hrun
  obtain ⟨inner, s₄, hinner, hpure⟩ := run_bind_eq_ok_iff.mp hrun
  cases hpure
  have hquiet : Recorded [] s [] s₁ := Notes.resolving _ s resolved s₁ hresolved
  obtain ⟨hgiven, hstart⟩ := recorded_start hgenerated hrecord resolved.style
  have hid : ids [.start e generated resolved.style] = (e.id?.or generated).toList := by
    have hvalue : Mark.id? (.start e generated resolved.style) = e.id?.or generated :=
      id?_startTag hgiven resolved.style
    rw [ids]
    cases hown : e.id?.or generated with
    | none => rw [List.filterMap_cons_none (by rw [hvalue, hown])]; rfl
    | some id => rw [List.filterMap_cons_some (by rw [hvalue, hown])]; rfl
  have hcontent := h resolved.style resolved.fired generated hgiven s₃ inner s' hinner
  have hrules : Recorded ([] ++ ids (.start e generated resolved.style :: inner)) s'
      [.rules e (e.id?.or generated)] s' := .plain _ s' rfl (by simp)
  have hopened : Recorded [] s [.start e generated resolved.style] s₃ := by
    simpa using hquiet.seq (by simpa [ids] using hstart)
  have hbody : Recorded [] s (.start e generated resolved.style :: inner) s' := by
    refine hopened.seq ?_
    rw [List.nil_append, hid]
    exact hcontent.recorded
  refine ⟨by simpa using hbody.seq hrules, ?_, ?_, ?_⟩
  · intro x given style hx
    rcases List.mem_append.mp hx with hx | hx
    · rcases List.mem_cons.mp hx with hx | hx
      · cases hx
        refine ⟨howned, hgiven, ?_⟩
        intro p span hp
        obtain ⟨_, hmark, rfl⟩ := hscripts resolved.style resolved.fired (e.id?.or generated) p span
          hp s₃ inner s' hinner
        exact List.mem_append_left _ (List.mem_cons_of_mem _ hmark)
      · obtain ⟨hx, hgiven', hinside⟩ := hcontent.starts x given style hx
        refine ⟨hx, hgiven', ?_⟩
        intro p span hp
        exact List.mem_append_left _ (List.mem_cons_of_mem _ (hinside p span hp))
    · cases List.mem_singleton.mp hx
  · intro x id hx
    rcases List.mem_append.mp hx with hx | hx
    · rcases List.mem_cons.mp hx with hx | hx
      · cases hx
      · obtain ⟨given, style, hstart, hid⟩ := hcontent.rules x id hx
        exact ⟨given, style, List.mem_append_left _ (List.mem_cons_of_mem _ hstart), hid⟩
    · cases List.mem_singleton.mp hx
      exact ⟨generated, resolved.style, by simp, rfl⟩
  · intro token
    have := hcontent.copies token
    simpa [List.countP_append, List.countP_cons, Mark.copyOf] using this

variable (r : Resolver)

mutual

theorem writes_node (parent : Option String) : (n : Node) → (∀ x ∈ entered n.events, owned x) →
    Writes owned parent.toList (fun token => n.copies token) (node r parent n)
  | .element e, h => by
    rw [node]
    have he := writes_element e (by rwa [Node.events] at h)
    exact he.mono (List.nil_subset _) fun token => by rw [Node.copies]
  | .text value span, _ => by
    rw [node]
    intro s marks s' hrun
    cases hrun
    exact .plain owned _ _ _ rfl (by simp) (by simp)
  | .comment value span, _ => by
    rw [node]
    intro s marks s' hrun
    cases hrun
    exact .plain owned _ _ _ rfl (by simp) (by simp)
  | .placeholder p kind span, _ => by
    rw [node]
    intro s marks s' hrun
    obtain ⟨_, middle, hcontext, hpure⟩ := run_bind_eq_ok_iff.mp hrun
    cases hpure
    refine ⟨recorded_placeholder hcontext, by simp, by simp, ?_⟩
    intro token
    rw [Node.copies]
    by_cases htoken : p.token = token
    · simp [Mark.copyOf, htoken]
    · simp [Mark.copyOf, htoken]

theorem writes_element : (e : Element) → (∀ x ∈ entered e.events, owned x) →
    Writes owned [] (fun token => e.copies token) (element r e)
  | ⟨nodeId, tag, attributes, children, style, chains, rules, span⟩, h => by
    have hown := h _ (Element.mem_entered.mpr (.inl rfl))
    have hchildren : ∀ walk ∈ eventsOfNodes children, ∀ x ∈ entered walk, owned x :=
      fun walk hwalk x hx => h x (Element.mem_entered.mpr (.inr (.inl ⟨walk, hwalk, hx⟩)))
    have hchains : ∀ c ∈ eventsOfChains chains, ∀ x ∈ entered c.2, owned x :=
      fun c hc x hx => h x (Element.mem_entered.mpr (.inr (.inr ⟨c, hc, hx⟩)))
    rw [element]
    refine writes_opened r _ _ (fun styled fired id =>
      closed tag (children.isEmpty && chains.isEmpty)
        (inTurn (weave 0 (nodes r id children) (chainsOf r styled id chains fired)))) hown ?_ ?_
    · intro styled fired generated hgiven
      have hid (hdynamic : chains.any Chain.isDynamic = true) :=
        hgiven.isSome_of_needsId ((needsId_iff _).mpr (.inr (.inr (.inl hdynamic))))
      have hinner := Writes.inTurn (weave_forall₂ (writes_nodes _ children hchildren)
        (writes_chainsOf styled _ chains fired hid hchains) 0)
      refine hinner.closed.mono (List.Subset.refl _) ?_
      intro token
      rw [Element.copies]
      exact sum_weave_budgets_le 0 children chains fired token
    · intro style fired id p span hp
      have hmem : node r id (.placeholder p .script span) ∈ nodes r id children := by
        rw [nodes_eq_map]
        exact List.mem_map_of_mem hp
      have hempty : (children.isEmpty && chains.isEmpty) = false := by
        cases children with
        | nil => cases hp
        | cons n ns => rfl
      refine Emits.closed hempty ?_
      exact (emits_placeholder r id p .script span).inTurn (mem_weave.mpr (.inl hmem))

theorem writes_nodes (parent : Option String) : (ns : List Node) →
    (∀ walk ∈ eventsOfNodes ns, ∀ x ∈ entered walk, owned x) →
    List.Forall₂ (Writes owned parent.toList) (nodeBudgets ns) (nodes r parent ns)
  | [], _ => by
    rw [nodes]
    exact .nil
  | n :: ns, h => by
    rw [eventsOfNodes, List.forall_mem_cons] at h
    rw [nodes]
    exact .cons (writes_node parent n h.1) (writes_nodes parent ns h.2)

theorem writes_chainsOf (style : StyleMap) (id : Option String) : (cs : List Chain) →
    (fired : List (Option Nat)) → (cs.any Chain.isDynamic = true → id.isSome) →
    (∀ c ∈ eventsOfChains cs, ∀ x ∈ entered c.2, owned x) →
    List.Forall₂ (fun c g => c.1 = g.1 ∧ Writes owned id.toList c.2 g.2) (chainBudgets cs fired)
      (chainsOf r style id cs fired)
  | [], fired, _, _ => by
    rw [chainsOf]
    exact .nil
  | c :: cs, [], _, _ => by
    cases c
    rw [chainsOf.eq_def]
    exact .nil
  | ⟨branches, anchor⟩ :: cs, first :: fired, hid, h => by
    rw [eventsOfChains, List.forall_mem_cons] at h
    obtain ⟨hfirst, hrest⟩ := h
    have hbranches : ∀ walk ∈ eventsOfBranches branches, ∀ x ∈ entered walk, owned x :=
      fun walk hwalk x hx => hfirst x (Chain.mem_entered.mpr ⟨walk, hwalk, hx⟩)
    rw [chainsOf.eq_def]
    refine .cons ⟨rfl, ?_⟩ (writes_chainsOf style id cs fired
      (fun hany => hid (by simp [hany])) hrest)
    have hcopies (token : String) : copiesInBranches token branches ≤
        Chain.copies token ⟨branches, anchor⟩ := by rw [Chain.copies]
    by_cases hdynamic : branches.any Branch.isDynamic = true
    · have hsome : id.isSome := hid (by simp [Chain.isDynamic, hdynamic])
      obtain ⟨target, htarget⟩ := Option.isSome_iff_exists.mp hsome
      rw [if_pos hdynamic, htarget]
      intro s marks s' hrun
      obtain ⟨chain, middle, hbegin, hrun⟩ := run_bind_eq_ok_iff.mp hrun
      have hnothing : Accounted owned [target] (fun _ => 0) s [] middle :=
        .nothing owned _ _ (Notes.beginChain s chain middle hbegin)
      have hwritten := writes_dynamicBranches style target chain _ 0 [] branches hbranches
        middle marks s' hrun
      exact (hnothing.seq (hwritten.mono (List.subset_append_left _ _)
        fun token => Nat.le_refl _)).mono (List.Subset.refl _)
        fun token => by simpa using hcopies token
    · rw [if_neg hdynamic]
      cases first with
      | none => exact .nothing
      | some index =>
        exact (writes_firedBranch id index branches hbranches).mono (List.Subset.refl _) hcopies

theorem writes_firedBranch (id : Option String) : (index : Nat) → (bs : List Branch) →
    (∀ walk ∈ eventsOfBranches bs, ∀ x ∈ entered walk, owned x) →
    Writes owned id.toList (fun token => copiesInBranches token bs) (firedBranch r id index bs)
  | _, [], _ => by
    rw [firedBranch]
    exact .nothing
  | 0, ⟨condition, body, children, span⟩ :: bs, h => by
    rw [eventsOfBranches, List.forall_mem_cons] at h
    have hchildren : ∀ walk ∈ eventsOfNodes children, ∀ x ∈ entered walk, owned x :=
      fun walk hwalk x hx => h.1 x (Branch.mem_entered.mpr ⟨walk, hwalk, hx⟩)
    rw [firedBranch]
    refine (Writes.inTurn (writes_nodes id children hchildren)).mono (List.Subset.refl _) ?_
    intro token
    rw [sum_nodeBudgets, copiesInBranches, Branch.copies]
    omega
  | index + 1, b :: bs, h => by
    rw [eventsOfBranches, List.forall_mem_cons] at h
    rw [firedBranch]
    refine (writes_firedBranch id index bs h.2).mono (List.Subset.refl _) ?_
    intro token
    rw [copiesInBranches]
    omega

theorem writes_dynamicBranches (style : StyleMap) (target : String) (chain : Nat)
    (setsAnything : Bool) : (index : Nat) → (earlier : List String) → (bs : List Branch) →
    (∀ walk ∈ eventsOfBranches bs, ∀ x ∈ entered walk, owned x) →
    Writes owned [target] (fun token => copiesInBranches token bs)
      (dynamicBranches r style target chain setsAnything index earlier bs)
  | _, _, [], _ => by
    rw [dynamicBranches]
    exact .nothing
  | index, earlier, ⟨condition, body, children, span⟩ :: bs, h => by
    rw [eventsOfBranches, List.forall_mem_cons] at h
    have hchildren : ∀ walk ∈ eventsOfNodes children, ∀ x ∈ entered walk, owned x :=
      fun walk hwalk x hx => h.1 x (Branch.mem_entered.mpr ⟨walk, hwalk, hx⟩)
    rw [dynamicBranches]
    intro s marks s' hrun
    obtain ⟨js, s₁, hbranch, hrun⟩ := run_bind_eq_ok_iff.mp hrun
    obtain ⟨wrapped, s₂, hwrapped, hrun⟩ := run_bind_eq_ok_iff.mp hrun
    obtain ⟨more, s₃, hmore, hpure⟩ := run_bind_eq_ok_iff.mp hrun
    cases hpure
    have hnothing : Accounted owned [target] (fun _ => 0) s [] s₁ := .nothing owned _ _
      (Notes.recordBranch r style target chain index setsAnything condition body s js s₁ hbranch)
    have hown := (Writes.inTurn (writes_nodes (some target) children hchildren)).inWrapper
      s₁ wrapped s₂ hwrapped
    have hlater := writes_dynamicBranches style target chain setsAnything (index + 1) _ bs h.2
      s₂ more s' hmore
    have hboth := hown.seq (hlater.mono (List.subset_append_left _ _) fun token => Nat.le_refl _)
    refine (hnothing.seq (hboth.mono (List.subset_append_left _ _)
      fun token => Nat.le_refl _)).mono (List.Subset.refl _) ?_
    intro token
    rw [sum_nodeBudgets, copiesInBranches, Branch.copies]
    omega

end

end

end Chtl.Html
