import Chtl.Proofs.Document.Built

/-!
# Elements as they are read

An element is formed if its parts are as they are asked to be. What is asked of spans, expressions,
names and keys is open, so one account of the steps that build an element serves all of it.
-/

set_option autoImplicit false
set_option linter.all false

namespace Chtl

/-- An element as it is read: its parts are as they are asked to be, and its chains are shaped. -/
structure Element.Formed (asked : Asked) (e : Element) : Prop where
  span : asked.spans e.span
  tag : asked.names e.tag
  attributes : ∀ a ∈ e.attributes, asked.spans a.span
  names : ∀ a ∈ e.attributes, asked.names a.name
  style : ∀ d ∈ e.style, d.Holds asked.exprs ∧ asked.keys d.key
  chains : ∀ c ∈ e.chains, c.Shaped asked.exprs
  set : ∀ c ∈ e.chains, ∀ b ∈ c.branches, ∀ d ∈ b.body, asked.names d.key

/-- Rules give names of their own to an element. -/
structure Asked.Words (asked : Asked) : Prop where
  cls : asked.names "class"
  id : asked.names "id"

namespace Element.Formed

variable {asked : Asked} {e : Element}

theorem of_mem_updateFirst {α : Type} {p : α → Bool} {f : α → α} {as : List α} {b : α}
    (h : b ∈ updateFirst p f as) : b ∈ as ∨ ∃ a ∈ as, b = f a := by
  induction as with
  | nil => cases h
  | cons a as ih =>
    rw [updateFirst] at h
    split_ifs at h
    · rcases List.mem_cons.mp h with rfl | h
      · exact .inr ⟨a, List.mem_cons_self, rfl⟩
      · exact .inl (List.mem_cons_of_mem a h)
    · rcases List.mem_cons.mp h with rfl | h
      · exact .inl List.mem_cons_self
      · rcases ih h with h | ⟨c, hc, rfl⟩
        · exact .inl (List.mem_cons_of_mem a h)
        · exact .inr ⟨c, List.mem_cons_of_mem a hc, rfl⟩

/-- Other attributes, each with the span and the name of an old one or as they are asked to be. -/
theorem withAttributes (h : e.Formed asked) {as : List Attribute}
    (has : ∀ a ∈ as, (∃ b ∈ e.attributes, a.span = b.span ∧ a.name = b.name) ∨
      asked.spans a.span ∧ asked.names a.name) :
    Element.Formed asked { e with attributes := as } := by
  have hall (a : Attribute) (ha : a ∈ as) : asked.spans a.span ∧ asked.names a.name := by
    rcases has a ha with ⟨b, hb, hspan, hname⟩ | hown
    · rw [hspan, hname]
      exact ⟨h.attributes b hb, h.names b hb⟩
    · exact hown
  exact ⟨h.span, h.tag, fun a ha => (hall a ha).1, fun a ha => (hall a ha).2, h.style, h.chains,
    h.set⟩

theorem setAttribute (h : e.Formed asked) {a : Attribute} (hspan : asked.spans a.span)
    (hname : asked.names a.name) : (e.setAttribute a).Formed asked := by
  unfold Element.setAttribute
  split_ifs
  · refine h.withAttributes fun b hb => ?_
    rcases of_mem_updateFirst hb with hb | ⟨_, _, rfl⟩
    · exact .inl ⟨b, hb, rfl, rfl⟩
    · exact .inr ⟨hspan, hname⟩
  · refine h.withAttributes fun b hb => ?_
    rcases List.mem_append.mp hb with hb | hb
    · exact .inl ⟨b, hb, rfl, rfl⟩
    · rw [List.mem_singleton.mp hb]
      exact .inr ⟨hspan, hname⟩

theorem append (h : e.Formed asked) {name : String} (hname : asked.names name)
    (value : AttributeValue) :
    Element.Formed asked { e with attributes := e.attributes ++ [⟨name, value, e.span⟩] } := by
  refine h.withAttributes fun b hb => ?_
  rcases List.mem_append.mp hb with hb | hb
  · exact .inl ⟨b, hb, rfl, rfl⟩
  · rw [List.mem_singleton.mp hb]
    exact .inr ⟨h.span, hname⟩

theorem addClass (hwords : asked.Words) (h : e.Formed asked) (name : String) :
    (e.addClass name).Formed asked := by
  have hsame (a : Attribute) :
      (appendClass name a).span = a.span ∧ (appendClass name a).name = a.name := by
    unfold appendClass
    split <;> exact ⟨rfl, rfl⟩
  unfold Element.addClass
  split_ifs
  · exact h
  · refine h.withAttributes fun b hb => ?_
    rcases of_mem_updateFirst hb with hb | ⟨a, ha, rfl⟩
    · exact .inl ⟨b, hb, rfl, rfl⟩
    · exact .inl ⟨a, ha, hsame a⟩
  · exact h.append hwords.cls _

theorem setIdIfAbsent (hwords : asked.Words) (h : e.Formed asked) (id : String) :
    (e.setIdIfAbsent id).Formed asked := by
  unfold Element.setIdIfAbsent
  split_ifs
  · exact h
  · exact h.append hwords.id _

theorem addRule (hwords : asked.Words) (h : e.Formed asked) (rule : StyleRule) :
    (e.addRule rule).Formed asked := by
  have hrules {e : Element} (h : e.Formed asked) :
      Element.Formed asked { e with rules := e.rules ++ [rule] } :=
    ⟨h.span, h.tag, h.attributes, h.names, h.style, h.chains, h.set⟩
  unfold Element.addRule
  split
  · exact hrules (h.addClass hwords _)
  · exact hrules (h.setIdIfAbsent hwords _)
  · exact hrules h

theorem setDeclaration (h : e.Formed asked) {d : StyleDeclaration}
    (hd : d.Holds asked.exprs ∧ asked.keys d.key) : (e.setDeclaration d).Formed asked := by
  unfold Element.setDeclaration
  split_ifs
  · refine ⟨h.span, h.tag, h.attributes, h.names, fun b hb => ?_, h.chains, h.set⟩
    rcases of_mem_updateFirst hb with hb | ⟨_, _, rfl⟩
    · exact h.style b hb
    · exact hd
  · exact ⟨h.span, h.tag, h.attributes, h.names,
      List.forall_mem_append.mpr ⟨h.style, by simpa using hd⟩, h.chains, h.set⟩

theorem renumber (h : e.Formed asked) (next : Nat) : (e.renumber next).1.Formed asked := by
  cases e
  rw [Element.renumber]
  refine ⟨h.span, h.tag, h.attributes, h.names, h.style, fun c hc => ?_, fun c hc b hb => ?_⟩
  · obtain ⟨⟨branches, anchor⟩, ha, k, rfl⟩ := exists_of_mem_renumberChains hc
    exact (h.chains _ ha).congr (map_own_renumberBranches k branches)
  · obtain ⟨⟨branches, anchor⟩, ha, k, rfl⟩ := exists_of_mem_renumberChains hc
    obtain ⟨⟨condition, body, nodes, span⟩, hb', k', rfl⟩ := exists_of_mem_renumberBranches hb
    exact h.set _ ha ⟨condition, body, nodes, span⟩ hb'

end Element.Formed

theorem kept_formed {asked : Asked} (hwords : asked.Words) : Kept asked (Element.Formed asked) where
  opened _ _ _ hspan htag := ⟨hspan, htag, by simp, by simp, by simp, by simp, by simp⟩
  closed _ _ hspan h := ⟨hspan, h.tag, h.attributes, h.names, h.style, h.chains, h.set⟩
  addChildren _ _ h := ⟨h.span, h.tag, h.attributes, h.names, h.style, h.chains, h.set⟩
  setAttribute _ _ hspan hname h := h.setAttribute hspan hname
  setDeclaration _ _ hd hkey h := h.setDeclaration ⟨hd, hkey⟩
  addRule _ r h := h.addRule hwords r
  addChain _ _ h hshaped hnames :=
    ⟨h.span, h.tag, h.attributes, h.names, h.style,
      List.forall_mem_append.mpr ⟨h.chains, by simpa using hshaped⟩,
      List.forall_mem_append.mpr ⟨h.set, by simpa using hnames⟩⟩
  renumber _ next h := h.renumber next

end Chtl
