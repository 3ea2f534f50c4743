import Chtl.Proofs.Html.Nodes

/-!
# Elements that are written in any case

Whether an element in a branch is written depends on conditions. An element that holds a block and
stands in no branch is written in any case: a copy in a branch counts twice, so where a placeholder
has no more than one copy, its element stands among children all the way up.
-/

set_option autoImplicit false
set_option linter.all false

namespace Chtl

section

variable {e : Element} {p : Placeholder} {kind : FragmentKind} {span : Span}

theorem copiesInNodes_pos_of_mem {ns : List Node} (h : Node.placeholder p kind span ∈ ns) :
    0 < copiesInNodes p.token ns := by
  induction ns with
  | nil => cases h
  | cons n ns ih =>
    rw [copiesInNodes]
    rcases List.mem_cons.mp h with rfl | h
    · rw [Node.copies, if_pos rfl]
      omega
    · have hrest := ih h
      omega

-- A placeholder is counted wherever the element that holds it stands.
mutual

theorem Node.copies_pos (hp : Node.placeholder p kind span ∈ e.children) : (n : Node) →
    e ∈ entered n.events → 0 < n.copies p.token
  | .element x, h => by
    rw [Node.events] at h
    rw [Node.copies]
    exact x.copies_pos hp h
  | .text .., h => by cases h
  | .comment .., h => by cases h
  | .placeholder .., h => by cases h

theorem Element.copies_pos (hp : Node.placeholder p kind span ∈ e.children) : (x : Element) →
    e ∈ entered x.events → 0 < x.copies p.token
  | ⟨nodeId, tag, attributes, children, style, chains, rules, span⟩, h => by
    rw [Element.copies]
    rcases Element.mem_entered.mp h with rfl | ⟨walk, hwalk, he⟩ | ⟨c, hc, he⟩
    · have hown : 0 < copiesInNodes p.token children := copiesInNodes_pos_of_mem hp
      omega
    · have hchildren := copiesInNodes_pos hp children walk hwalk he
      omega
    · have hchains := copiesInChains_pos hp chains c hc he
      omega

theorem Branch.copies_pos (hp : Node.placeholder p kind span ∈ e.children) : (b : Branch) →
    e ∈ entered b.events → 0 < b.copies p.token
  | ⟨_, _, children, _⟩, h => by
    obtain ⟨walk, hwalk, he⟩ := Branch.mem_entered.mp h
    rw [Branch.copies]
    exact copiesInNodes_pos hp children walk hwalk he

theorem Chain.copies_pos (hp : Node.placeholder p kind span ∈ e.children) : (c : Chain) →
    e ∈ entered c.events → 0 < c.copies p.token
  | ⟨branches, _⟩, h => by
    obtain ⟨walk, hwalk, he⟩ := Chain.mem_entered.mp h
    rw [Chain.copies]
    exact copiesInBranches_pos hp branches walk hwalk he

theorem copiesInNodes_pos (hp : Node.placeholder p kind span ∈ e.children) : (ns : List Node) →
    ∀ walk ∈ eventsOfNodes ns, e ∈ entered walk → 0 < copiesInNodes p.token ns
  | [], _, h, _ => by cases h
  | n :: ns, walk, h, he => by
    rw [eventsOfNodes] at h
    rw [copiesInNodes]
    rcases List.mem_cons.mp h with rfl | h
    · have hfirst := n.copies_pos hp he
      omega
    · have hrest := copiesInNodes_pos hp ns walk h he
      omega

theorem copiesInBranches_pos (hp : Node.placeholder p kind span ∈ e.children) :
    (bs : List Branch) → ∀ walk ∈ eventsOfBranches bs, e ∈ entered walk →
      0 < copiesInBranches p.token bs
  | [], _, h, _ => by cases h
  | b :: bs, walk, h, he => by
    rw [eventsOfBranches] at h
    rw [copiesInBranches]
    rcases List.mem_cons.mp h with rfl | h
    · have hfirst := b.copies_pos hp he
      omega
    · have hrest := copiesInBranches_pos hp bs walk h he
      omega

theorem copiesInChains_pos (hp : Node.placeholder p kind span ∈ e.children) :
    (cs : List Chain) → ∀ c ∈ eventsOfChains cs, e ∈ entered c.2 → 0 < copiesInChains p.token cs
  | [], _, h, _ => by cases h
  | first :: cs, c, h, he => by
    rw [eventsOfChains] at h
    rw [copiesInChains]
    rcases List.mem_cons.mp h with rfl | h
    · have hfirst := first.copies_pos hp he
      omega
    · have hrest := copiesInChains_pos hp cs c h he
      omega

end

end

namespace Html

/-- The start tag of an element. -/
def Mark.Starts (e : Element) (m : Mark) : Prop := ∃ generated style, m = .start e generated style

variable (r : Resolver)

theorem emits_own_start (e : Element) : Emits (Mark.Starts e) (element r e) := by
  cases e
  intro s marks s' hrun
  rw [element] at hrun
  obtain ⟨resolved, s₁, -, hrun⟩ := run_bind_eq_ok_iff.mp hrun
  obtain ⟨generated, s₂, -, hrun⟩ := run_bind_eq_ok_iff.mp hrun
  obtain ⟨_, s₃, -, hrun⟩ := run_bind_eq_ok_iff.mp hrun
  obtain ⟨inner, s₄, -, hpure⟩ := run_bind_eq_ok_iff.mp hrun
  cases hpure
  exact ⟨_, List.mem_cons_self, generated, resolved.style, rfl⟩

theorem emits_content {wanted : Mark → Prop} (x : Element) (hchildren : x.children ≠ [])
    (h : ∀ id, ∃ g ∈ nodes r id x.children, Emits wanted g) : Emits wanted (element r x) := by
  cases x with
  | mk nodeId tag attributes children style chains rules span =>
    intro s marks s' hrun
    rw [element] at hrun
    obtain ⟨resolved, s₁, -, hrun⟩ := run_bind_eq_ok_iff.mp hrun
    obtain ⟨generated, s₂, -, hrun⟩ := run_bind_eq_ok_iff.mp hrun
    obtain ⟨_, s₃, -, hrun⟩ := run_bind_eq_ok_iff.mp hrun
    obtain ⟨inner, s₄, hinner, hpure⟩ := run_bind_eq_ok_iff.mp hrun
    cases hpure
    obtain ⟨g, hg, hwanted⟩ := h _
    have hempty : (children.isEmpty && chains.isEmpty) = false := by
      rw [List.isEmpty_eq_false_iff.mpr hchildren, Bool.false_and]
    obtain ⟨m, hm, hwanted⟩ := (hwanted.inTurn (mem_weave.mpr (.inl hg))).closed hempty
      s₃ inner s' hinner
    exact ⟨m, List.mem_append_left _ (List.mem_cons_of_mem _ hm), hwanted⟩

section

variable {e : Element} {p : Placeholder} {kind : FragmentKind} {span : Span}

mutual

theorem emits_start_node (hp : Node.placeholder p kind span ∈ e.children)
    (parent : Option String) : (n : Node) → e ∈ entered n.events → n.copies p.token ≤ 1 →
    Emits (Mark.Starts e) (node r parent n)
  | .element x, h, hcopies => by
    rw [Node.events] at h
    rw [Node.copies] at hcopies
    rw [node]
    exact emits_start_element hp x h hcopies
  | .text .., h, _ => by cases h
  | .comment .., h, _ => by cases h
  | .placeholder .., h, _ => by cases h

theorem emits_start_element (hp : Node.placeholder p kind span ∈ e.children) : (x : Element) →
    e ∈ entered x.events → x.copies p.token ≤ 1 → Emits (Mark.Starts e) (element r x)
  | ⟨nodeId, tag, attributes, children, style, chains, rules, span⟩, h, hcopies => by
    rw [Element.copies] at hcopies
    rcases Element.mem_entered.mp h with rfl | ⟨walk, hwalk, he⟩ | ⟨c, hc, he⟩
    · exact emits_own_start r _
    · refine emits_content r _ ?_ fun id =>
        emits_start_nodes hp id children walk hwalk he (by omega)
      rintro rfl
      cases hwalk
    · have hchains := copiesInChains_pos hp chains c hc he
      omega

theorem emits_start_nodes (hp : Node.placeholder p kind span ∈ e.children)
    (parent : Option String) : (ns : List Node) → ∀ walk ∈ eventsOfNodes ns, e ∈ entered walk →
    copiesInNodes p.token ns ≤ 1 → ∃ g ∈ nodes r parent ns, Emits (Mark.Starts e) g
  | [], _, h, _, _ => by cases h
  | n :: ns, walk, h, he, hcopies => by
    rw [eventsOfNodes] at h
    rw [copiesInNodes] at hcopies
    rw [nodes]
    rcases List.mem_cons.mp h with rfl | h
    · exact ⟨_, List.mem_cons_self, emits_start_node hp parent n he (by omega)⟩
    · obtain ⟨g, hg, hemits⟩ := emits_start_nodes hp parent ns walk h he (by omega)
      exact ⟨g, List.mem_cons_of_mem _ hg, hemits⟩

end

end

end Html

end Chtl
