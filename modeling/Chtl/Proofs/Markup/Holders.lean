import Chtl.Proofs.Markup.Runs

/-!
# What a template of elements holds

The body of a template of elements is read into an element that stands for it, and only the children
of that element are kept. Attributes, declarations and chains are refused. A rule whose selector
begins with a class or an id leaves an attribute, so that it is refused as well; every other rule is
lost.
-/

set_option autoImplicit false
set_option linter.all false

namespace Chtl

/-- The selector of the rule begins with a class or an id, which the rule gives to its owner. -/
def StyleRule.IsMarked (r : StyleRule) : Prop :=
  (Element.markedName? '.' r.selector.toList).isSome ∨
    (Element.markedName? '#' r.selector.toList).isSome

instance (r : StyleRule) : Decidable r.IsMarked :=
  inferInstanceAs (Decidable (_ ∨ _))

namespace Element

theorem updateFirst_eq_nil {α : Type} {p : α → Bool} {f : α → α} {as : List α} :
    updateFirst p f as = [] ↔ as = [] := by
  cases as with
  | nil => simp [updateFirst]
  | cons a as =>
    rw [updateFirst]
    split_ifs <;> simp

theorem attributes_ne_nil_of_hasClass {e : Element} {name : String} (h : e.hasClass name) :
    e.attributes ≠ [] := by
  intro hnone
  simp [hasClass, classes, attribute?, hnone] at h

theorem attributes_ne_nil_of_isSome {e : Element} {name : String}
    (h : (e.attribute? name).isSome) : e.attributes ≠ [] := by
  intro hnone
  simp [attribute?, hnone] at h

theorem attributes_addClass_ne_nil (e : Element) (name : String) :
    (e.addClass name).attributes ≠ [] := by
  unfold addClass
  split_ifs with hclass hattribute
  · exact attributes_ne_nil_of_hasClass hclass
  · exact mt updateFirst_eq_nil.mp (attributes_ne_nil_of_isSome hattribute)
  · simp

theorem attributes_setIdIfAbsent_ne_nil (e : Element) (id : String) :
    (e.setIdIfAbsent id).attributes ≠ [] := by
  unfold setIdIfAbsent
  split_ifs with hattribute
  · exact attributes_ne_nil_of_isSome hattribute
  · simp

theorem attributes_setAttribute_ne_nil (e : Element) (a : Attribute) :
    (e.setAttribute a).attributes ≠ [] := by
  unfold setAttribute
  split_ifs with hattribute
  · exact mt updateFirst_eq_nil.mp (attributes_ne_nil_of_isSome hattribute)
  · simp

/-- A rule that gives nothing to its owner only comes to its rules. -/
theorem addRule_of_not_isMarked (e : Element) {r : StyleRule} (h : ¬ r.IsMarked) :
    e.addRule r = { e with rules := e.rules ++ [r] } := by
  have hnone : markedName? '.' r.selector.toList = none ∧
      markedName? '#' r.selector.toList = none := by
    simpa [StyleRule.IsMarked] using h
  rw [addRule, hnone.1, hnone.2]

theorem attributes_addRule_ne_nil (e : Element) {r : StyleRule} (h : r.IsMarked) :
    (e.addRule r).attributes ≠ [] := by
  unfold addRule
  split
  · exact attributes_addClass_ne_nil e _
  · exact attributes_setIdIfAbsent_ne_nil e _
  · rename_i hclass hid
    simp [StyleRule.IsMarked, hclass, hid] at h

/-- What the items of a body make of an element. -/
inductive Filled (e : Element) : Element → Prop
  | refl : Filled e e
  | addChildren {filled : Element} (h : Filled e filled) (nodes : List Node) :
    Filled e (filled.addChildren nodes)
  | addChain {filled : Element} (h : Filled e filled) (c : Chain) : Filled e (filled.addChain c)
  | setAttribute {filled : Element} (h : Filled e filled) (a : Attribute) :
    Filled e (filled.setAttribute a)
  | setDeclaration {filled : Element} (h : Filled e filled) (d : StyleDeclaration) :
    Filled e (filled.setDeclaration d)
  | addRule {filled : Element} (h : Filled e filled) (r : StyleRule) : Filled e (filled.addRule r)

namespace Filled

variable {e filled more : Element}

theorem trans (h : Filled e filled) (h' : Filled filled more) : Filled e more := by
  induction h' with
  | refl => exact h
  | addChildren _ nodes ih => exact .addChildren ih nodes
  | addChain _ c ih => exact .addChain ih c
  | setAttribute _ a ih => exact .setAttribute ih a
  | setDeclaration _ d ih => exact .setDeclaration ih d
  | addRule _ r ih => exact .addRule ih r

theorem of_styled {inside : Span → Prop} (h : Markup.Styled inside e filled) :
    Filled e filled := by
  induction h with
  | refl => exact .refl
  | setDeclaration _ d ih => exact .setDeclaration ih d
  | addRule _ _ ih => exact .addRule ih _

end Filled

/-- What no item of a body changes in an element. -/
structure SameHead (e e' : Element) : Prop where
  nodeId : e'.nodeId = e.nodeId
  tag : e'.tag = e.tag
  span : e'.span = e.span

/-- An element that differs in its children only has the same rules. -/
theorem SameHead.eq_iff {e filled : Element} (h : e.SameHead filled)
    (hattributes : filled.attributes = e.attributes) (hstyle : filled.style = e.style)
    (hchains : filled.chains = e.chains) :
    filled = { e with children := filled.children } ↔ filled.rules = e.rules := by
  obtain ⟨hid, htag, hspan⟩ := h
  cases filled
  simp_all

theorem Filled.sameHead {e filled : Element} (h : Filled e filled) : e.SameHead filled := by
  have hadded {x : Element} (hx : e.SameHead x) {y : Element} (hid : y.nodeId = x.nodeId)
      (htag : y.tag = x.tag) (hspan : y.span = x.span) : e.SameHead y :=
    ⟨hid.trans hx.nodeId, htag.trans hx.tag, hspan.trans hx.span⟩
  induction h with
  | refl => exact ⟨rfl, rfl, rfl⟩
  | addChildren _ nodes ih => exact hadded ih rfl rfl rfl
  | addChain _ c ih => exact hadded ih rfl rfl rfl
  | setAttribute _ a ih =>
    unfold Element.setAttribute
    split_ifs <;> exact hadded ih rfl rfl rfl
  | setDeclaration _ d ih =>
    unfold Element.setDeclaration
    split_ifs <;> exact hadded ih rfl rfl rfl
  | addRule _ r ih =>
    unfold Element.addRule addClass setIdIfAbsent
    split
    · split_ifs <;> exact hadded ih rfl rfl rfl
    · split_ifs <;> exact hadded ih rfl rfl rfl
    · exact hadded ih rfl rfl rfl

/-- An element that came to no attribute has no rule that would have given it one. -/
theorem Filled.not_isMarked {e filled : Element} (h : Filled e filled) (hnone : e.rules = [])
    (hfilled : filled.attributes = []) : ∀ r ∈ filled.rules, ¬ r.IsMarked := by
  induction h with
  | refl => simp [hnone]
  | addChildren _ nodes ih => exact ih hfilled
  | addChain _ c ih => exact ih hfilled
  | setAttribute _ a ih => exact absurd hfilled (attributes_setAttribute_ne_nil _ a)
  | setDeclaration _ d ih =>
    unfold Element.setDeclaration at hfilled ⊢
    split_ifs at hfilled ⊢ <;> exact ih hfilled
  | addRule _ r ih =>
    have hr : ¬ r.IsMarked := fun hmarked => attributes_addRule_ne_nil _ hmarked hfilled
    rw [addRule_of_not_isMarked _ hr] at hfilled ⊢
    exact List.forall_mem_append.mpr ⟨ih hfilled, by simpa using hr⟩

end Element

namespace Markup

open Text Reader

variable {s : Setting} {p : Progress}

theorem after_addBlock (e : Element) (f : Fragment) (q : Placeholder) (span : Span) :
    After s (addBlock e f q span) p fun filled _ => e.Filled filled := by
  refine After.read (.ite (fun _ => .fail _) fun _ => .ite (fun _ => ?_) fun _ =>
    .ite (fun _ => .fail _) fun _ => .pure (.addChildren .refl _))
  have hbody : After s (within (.source f.bodyRange.start) f.text.toList (styleBody e true false))
      p fun filled _ => e.Filled filled :=
    After.within (After.mono (passes_styleBody true false) fun _ _ h => .of_styled h.2)
  exact hbody.bind fun styled _ hstyled => After.whatever fun _ _ => .pure hstyled

theorem after_addAttribute (e : Element) (name : String) (start : Nat) :
    After s (addAttribute e name start) p fun filled _ => e.Filled filled := by
  refine After.whatever fun (raw, rawStart) _ => After.whatever fun _ _ => ?_
  refine After.spanFrom (After.spanOf (After.whatever fun text _ => ?_))
  refine .ite (fun _ => .pure (.addChildren .refl _)) fun _ => ?_
  split
  · exact .pure (.setAttribute .refl _)
  · exact .pure (.setAttribute .refl _)

/-- The items up to the brace fill the element. -/
theorem after_elementItems (limit : Nat) (e : Element) :
    After s (elementItems limit e) p fun filled _ => e.Filled filled := by
  induction limit generalizing e p with
  | zero => exact .unexpected _
  | succ limit ih =>
    have hmore {e' : Element} (h : e.Filled e') (q : Progress) :
        After s (elementItems limit e') q fun filled _ => e.Filled filled :=
      (ih e').mono fun _ _ h' => h.trans h'
    have hone (nodes : List Node) (q : Progress) :
        After s (elementItems limit (e.addChildren nodes)) q fun filled _ => e.Filled filled :=
      hmore (.addChildren .refl nodes) q
    refine After.whatever fun _ _ => After.whatever fun closed _ => ?_
    refine .ite (fun _ => .pure .refl) fun _ => After.atEnd (.ite (fun _ => .unexpected _) ?_)
    intro _
    refine After.offset (After.looksAt (.ite (fun _ => ?_) fun _ => ?_))
    · exact After.whatever fun n _ => hone [n] _
    refine After.peek? (.ite (fun _ => After.whatever fun nodes _ => hone nodes _) fun _ => ?_)
    refine After.whatever fun name _ => After.block? ?_ fun f q _ _ => ?_
    · refine After.whatever fun _ _ => After.peek? (.ite (fun _ => ?_) fun _ => ?_)
      · refine After.whatever fun _ _ => ?_
        exact (after_addAttribute e name _).bind fun e' _ he => hmore he _
      refine .ite (fun _ => .ite (fun _ => ?_) fun _ => ?_) fun _ => .unexpected _
      · exact After.whatever fun n _ => hone [n] _
      refine .ite (fun _ => ?_) fun _ => .ite (fun _ => After.spanFrom (.fail _)) fun _ => ?_
      · exact After.whatever fun first _ => After.whatever fun more _ =>
          hmore (.addChain .refl _) _
      · exact After.whatever fun child _ => hone [.element child] _
    · exact After.spanFrom ((after_addBlock e f q _).bind fun e' _ he => hmore he _)

/-- The element that the body of a template is read into. -/
def Setting.holder (s : Setting) (p : Progress) (start : Nat) : Element :=
  ⟨0, "", [], [], [], [], [], s.origin.span start p.cursor.offset⟩

/-- A template of elements is accepted exactly if its holder came to no attribute, declaration or
chain. All that is read is then in its nodes, but for rules, which have neither a class nor an id in
front; it is complete exactly if there are none. -/
theorem templateBody_element_iff (s : Setting) (p q : Progress) (start : Nat) (t : Template) :
    ((templateBody .element start).run s).run p = .ok (t, q) ↔
      ∃ filled, ((elementItems (p.cursor.rest.length + 1) (s.holder p start)).run s).run p =
          .ok (filled, q) ∧
        filled.attributes = [] ∧ filled.style = [] ∧ filled.chains = [] ∧
        t = .element filled.children ∧ (∀ r ∈ filled.rules, ¬ r.IsMarked) ∧
        (filled = { s.holder p start with children := filled.children } ↔ filled.rules = []) := by
  constructor
  · intro hrun
    obtain ⟨_, _, ⟨⟩, hrun⟩ := run_bind_eq_ok.mp hrun
    obtain ⟨_, _, ⟨⟩, hrun⟩ := run_bind_eq_ok.mp hrun
    obtain ⟨filled, r, hitems, hrest⟩ := run_bind_eq_ok.mp hrun
    have hfilled := after_elementItems _ _ filled r hitems
    split at hrest
    · cases hrest
    rename_i hattributes
    split_ifs at hrest with hempty
    · cases hrest
      obtain ⟨hstyle, hchains⟩ : filled.style = [] ∧ filled.chains = [] := by simpa using hempty
      exact ⟨filled, hitems, hattributes, hstyle, hchains, rfl,
        hfilled.not_isMarked rfl hattributes,
        hfilled.sameHead.eq_iff hattributes hstyle hchains⟩
    · obtain ⟨_, _, ⟨⟩, ⟨⟩⟩ := run_bind_eq_ok.mp hrest
  · rintro ⟨filled, hitems, hattributes, hstyle, hchains, rfl, -, -⟩
    refine run_bind_eq_ok.mpr ⟨_, _, rfl, run_bind_eq_ok.mpr ⟨_, _, rfl, ?_⟩⟩
    refine run_bind_eq_ok.mpr ⟨filled, q, hitems, ?_⟩
    rw [hattributes, hstyle, hchains]
    rfl

/-- A style block with a rule for a tag: the template is accepted without nodes, the block has
become part of its holder, and the rule is gone. -/
theorem templateBody_element_drops_rule :
    ∃ source, source =
        "[Template] @Element T \x7b style \x7b p \x7b color: red; \x7d \x7d \x7d".toList ∧
      ∃ scanned, scan source = .ok scanned ∧
        (∃ d, Document.ofScanned scanned = .ok d ∧ d.children.length = 0 ∧
          d.consumedStyles = scanned.fragments.filterMap (·.placeholder)) ∧
        ∃ s, s = { scanned, origin := .markup scanned, inTemplate := true : Setting } ∧
        ∃ p, p = { cursor := Cursor.advance { rest := scanned.markup } 23 : Progress } ∧
          (((templateBody .element 0).run s).run p).isOk ∧
          ∃ r, ((elementItems (p.cursor.rest.length + 1) (s.holder p 0)).run s).run p = .ok r ∧
            r.1.rules.map (·.selector) = ["p"] ∧
            r.2.consumed = scanned.fragments.filterMap (·.placeholder) := by
  refine ⟨_, rfl, ?_⟩
  rw [String.toList_ofList]
  simp only [exists_eq_left]
  decide +kernel

end Markup

end Chtl
