import Chtl.Proofs.Document.Taken
import Chtl.Proofs.Markup.Runs

/-!
# The order in which elements are read

The attributes and rules of an element come one after the other as the markup goes on. An attribute
has the span of a stretch that is behind all that was read before, and a rule stands in a block
whose placeholder was just read. So is every element of a document, a copy of a template's
included.
-/

set_option autoImplicit false
set_option linter.all false

namespace Chtl

open Text

/-! ## Elements among nodes -/

section

variable {e : Element}

theorem Occurs.of_append {ns more : List Node} (h : Occurs e (ns ++ more)) :
    Occurs e ns ∨ Occurs e more := by
  cases h with
  | here he => exact (List.mem_append.mp he).imp .here .here
  | child hx h => exact (List.mem_append.mp hx).imp (.child · h) (.child · h)
  | branch hx hc hb h =>
    exact (List.mem_append.mp hx).imp (.branch · hc hb h) (.branch · hc hb h)

theorem exists_element_of_mem_renumberNodes {next : Nat} {ns : List Node}
    (h : .element e ∈ (renumberNodes next ns).1) :
    ∃ x k, .element x ∈ ns ∧ e = (x.renumber k).1 := by
  obtain ⟨n, hn, k, heq⟩ := exists_of_mem_renumberNodes h
  cases n with
  | element x => exact ⟨x, k, hn, Node.element.inj heq⟩
  | text | comment | placeholder => cases heq

/-- A copy of an element has copies of its children and branches, and its own attributes and
rules. -/
theorem Element.parts_renumber (e : Element) (next : Nat) :
    (e.renumber next).1.attributes = e.attributes ∧ (e.renumber next).1.rules = e.rules ∧
      (∃ k, (e.renumber next).1.children = (renumberNodes k e.children).1) ∧
      ∃ k, (e.renumber next).1.chains = (renumberChains k e.chains).1 := by
  cases e
  exact ⟨rfl, rfl, ⟨_, rfl⟩, _, rfl⟩

/-- A branch of a copy has a copy of the children of a branch. -/
theorem exists_branch_of_mem_renumberChains {next : Nat} {cs : List Chain} {c : Chain} {b : Branch}
    (hc : c ∈ (renumberChains next cs).1) (hb : b ∈ c.branches) :
    ∃ a ∈ cs, ∃ d ∈ a.branches, ∃ k, b.children = (renumberNodes k d.children).1 := by
  obtain ⟨⟨branches, anchor⟩, ha, k, rfl⟩ := exists_of_mem_renumberChains hc
  obtain ⟨⟨condition, body, children, span⟩, hd, k', rfl⟩ := exists_of_mem_renumberBranches hb
  exact ⟨_, ha, _, hd, k', rfl⟩

/-- An element of a copy is a copy of an element. -/
theorem Occurs.of_renumber {next : Nat} {ns : List Node}
    (h : Occurs e (renumberNodes next ns).1) : ∃ x k, Occurs x ns ∧ e = (x.renumber k).1 := by
  generalize hcopy : (renumberNodes next ns).1 = copy at h
  induction h generalizing next ns with
  | here he =>
    subst hcopy
    obtain ⟨x, k, hx, rfl⟩ := exists_element_of_mem_renumberNodes he
    exact ⟨x, k, .here hx, rfl⟩
  | child hy _ ih =>
    subst hcopy
    obtain ⟨y, k, hy', rfl⟩ := exists_element_of_mem_renumberNodes hy
    obtain ⟨-, -, ⟨_, hchildren⟩, -⟩ := y.parts_renumber k
    obtain ⟨x, k', hx, rfl⟩ := ih hchildren.symm
    exact ⟨x, k', .child hy' hx, rfl⟩
  | branch hy hc hb _ ih =>
    subst hcopy
    obtain ⟨y, k, hy', rfl⟩ := exists_element_of_mem_renumberNodes hy
    obtain ⟨-, -, -, _, hchains⟩ := y.parts_renumber k
    rw [hchains] at hc
    obtain ⟨c, hc, b, hb, _, hchildren⟩ := exists_branch_of_mem_renumberChains hc hb
    obtain ⟨x, k', hx, rfl⟩ := ih hchildren.symm
    exact ⟨x, k', .branch hy' hc hb hx, rfl⟩

end

/-! ## Elements item by item -/

/-- A token stands in the markup as a whole name and ends there by an offset. -/
def Scanned.EndsBy (scanned : Scanned) (token : List Char) (n : Nat) : Prop :=
  ∃ before behind, scanned.markup = before ++ behind ∧ before.getLast?.any isNameChar = false ∧
    behind.takeWhile isNameChar = token ∧ size before + size token ≤ n

/-- The rule stands in a block whose placeholder ends by an offset of the markup. -/
def StyleRule.ReadBy (scanned : Scanned) (r : StyleRule) (n : Nat) : Prop :=
  ∃ f ∈ scanned.fragments, ∃ b, f.placeholder = some b ∧ scanned.EndsBy b.token.toList n ∧
    r.span.Between f.bodyRange.start f.bodyRange.stop

/-- The attributes and rules of the element came one after the other, up to an offset of the
markup. -/
inductive Element.ReadTo (scanned : Scanned) : Element → Nat → Prop
  | opened {e : Element} {n : Nat} (hattributes : e.attributes = []) (hrules : e.rules = []) :
    ReadTo scanned e n
  | same {e e' : Element} {n m : Nat} (h : ReadTo scanned e n)
    (hattributes : e'.attributes = e.attributes) (hrules : e'.rules = e.rules) (hle : n ≤ m) :
    ReadTo scanned e' m
  | setAttribute {e : Element} {a : Attribute} {n start stop : Nat} (h : ReadTo scanned e n)
    (hstart : n ≤ start) (hstop : start ≤ stop) (ha : a.span = scanned.spanToSource ⟨start, stop⟩) :
    ReadTo scanned (e.setAttribute a) stop
  | addRule {e : Element} {r : StyleRule} {n : Nat} (h : ReadTo scanned e n)
    (hr : r.ReadBy scanned n) : ReadTo scanned (e.addRule r) n

/-- Every element among the nodes was read item by item. -/
def AllRead (scanned : Scanned) (ns : List Node) : Prop :=
  ∀ e, Occurs e ns → ∃ n, e.ReadTo scanned n

/-- An element that was read up to an offset, and so were those in it. -/
structure Element.ReadThrough (scanned : Scanned) (e : Element) (n : Nat) : Prop where
  own : e.ReadTo scanned n
  children : AllRead scanned e.children
  branches : ∀ c ∈ e.chains, ∀ b ∈ c.branches, AllRead scanned b.children

variable {scanned : Scanned}

namespace AllRead

theorem nil : AllRead scanned [] := by
  intro e he
  cases he with
  | here h | child h | branch h => cases h

theorem append {ns more : List Node} (h : AllRead scanned ns) (h' : AllRead scanned more) :
    AllRead scanned (ns ++ more) :=
  fun e he => he.of_append.elim (h e) (h' e)

/-- A node that is no element. -/
theorem leaf {n : Node} (h : ∀ x, n ≠ .element x) : AllRead scanned [n] := by
  intro e he
  cases he with
  | here hx | child hx | branch hx => exact absurd (List.mem_singleton.mp hx).symm (h _)

theorem element {e : Element} {n : Nat} (h : e.ReadThrough scanned n) :
    AllRead scanned [.element e] := by
  intro x hx
  cases hx with
  | here hx =>
    cases List.mem_singleton.mp hx
    exact ⟨n, h.own⟩
  | child he hx =>
    cases List.mem_singleton.mp he
    exact h.children x hx
  | branch he hc hb hx =>
    cases List.mem_singleton.mp he
    exact h.branches _ hc _ hb x hx

/-- Node ids do not matter. -/
theorem renumber {ns : List Node} (h : AllRead scanned ns) (next : Nat) :
    AllRead scanned (renumberNodes next ns).1 := by
  intro e he
  obtain ⟨x, k, hx, rfl⟩ := he.of_renumber
  obtain ⟨n, hn⟩ := h x hx
  obtain ⟨hattributes, hrules, -⟩ := x.parts_renumber k
  exact ⟨n, .same hn hattributes hrules (Nat.le_refl n)⟩

end AllRead

namespace Element.ReadThrough

variable {e : Element} {n m : Nat}

theorem opened (nodeId : Nat) (tag : String) (span : Span) :
    ReadThrough scanned ⟨nodeId, tag, [], [], [], [], [], span⟩ n :=
  ⟨.opened rfl rfl, .nil, by simp⟩

theorem later (h : e.ReadThrough scanned n) (hle : n ≤ m) : e.ReadThrough scanned m :=
  ⟨.same h.own rfl rfl hle, h.children, h.branches⟩

theorem closed (h : e.ReadThrough scanned n) (span : Span) :
    ReadThrough scanned { e with span := span } n :=
  ⟨.same h.own rfl rfl (Nat.le_refl n), h.children, h.branches⟩

theorem addChildren (h : e.ReadThrough scanned n) {nodes : List Node}
    (hnodes : AllRead scanned nodes) : (e.addChildren nodes).ReadThrough scanned n :=
  ⟨.same h.own rfl rfl (Nat.le_refl n), h.children.append hnodes, h.branches⟩

theorem addChain (h : e.ReadThrough scanned n) {c : Chain}
    (hc : ∀ b ∈ c.branches, AllRead scanned b.children) : (e.addChain c).ReadThrough scanned n :=
  ⟨.same h.own rfl rfl (Nat.le_refl n), h.children,
    List.forall_mem_append.mpr ⟨h.branches, by simpa using hc⟩⟩

theorem setAttribute (h : e.ReadThrough scanned n) {a : Attribute} {start stop : Nat}
    (hstart : n ≤ start) (hstop : start ≤ stop)
    (ha : a.span = scanned.spanToSource ⟨start, stop⟩) :
    (e.setAttribute a).ReadThrough scanned stop := by
  obtain ⟨hchildren, hchains⟩ := e.inner_setAttribute a
  exact ⟨.setAttribute h.own hstart hstop ha, hchildren ▸ h.children, hchains ▸ h.branches⟩

theorem styled {inside : Span → Prop} {e' : Element} (h : e.ReadThrough scanned n)
    (hstyled : Markup.Styled inside e e')
    (hinside : ∀ r : StyleRule, inside r.span → r.ReadBy scanned n) :
    e'.ReadThrough scanned n := by
  induction hstyled with
  | refl => exact h
  | @setDeclaration e' _ d ih =>
    obtain ⟨hchildren, hchains⟩ := e'.inner_setDeclaration d
    have hsame : (e'.setDeclaration d).attributes = e'.attributes ∧
        (e'.setDeclaration d).rules = e'.rules := by
      unfold Element.setDeclaration
      split_ifs <;> exact ⟨rfl, rfl⟩
    exact ⟨.same ih.own hsame.1 hsame.2 (Nat.le_refl n), hchildren ▸ ih.children,
      hchains ▸ ih.branches⟩
  | @addRule e' _ r hr ih =>
    obtain ⟨hchildren, hchains⟩ := e'.inner_addRule r
    exact ⟨.addRule ih.own (hinside r hr), hchildren ▸ ih.children, hchains ▸ ih.branches⟩

end Element.ReadThrough

/-! ## Readers -/

namespace Markup

open Reader

variable {s : Setting} {p : Progress}

/-- The markup of the unit is read. -/
structure Setting.Reads (scanned : Scanned) (s : Setting) : Prop where
  unit : s.scanned = scanned
  origin : s.origin = .markup scanned

/-- A place in the markup, with templates whose elements were read item by item. -/
structure Progress.Stands (scanned : Scanned) (p : Progress) : Prop where
  place : p.cursor.In scanned.markup
  apart : p.cursor.Apart
  templates : ∀ name nodes, p.templates.element? name = some nodes → AllRead scanned nodes

theorem Progress.Stands.later {q : Progress} (hp : p.Stands scanned) (hq : Later p q) :
    q.Stands scanned :=
  ⟨hq.place _ hp.place, hq.apart hp.apart, hq.templates ▸ hp.templates⟩

theorem passes_comment : Passes s comment p fun n _ => AllRead scanned [n] := by
  rintro _ _ ⟨⟩
  refine ⟨⟨fun _ h => (h.advance _).advance _, fun _ => Cursor.apart_line _, ?_, rfl⟩, .leaf nofun⟩
  exact Nat.le_trans (Nat.le_add_right _ _) (Nat.le_add_right _ _)

theorem passes_textBlock (start : Nat) :
    Passes s (textBlock start) p fun n _ => AllRead scanned [n] := by
  refine (Passes.expect (by decide) _).bind fun _ _ _ _ => ?_
  refine (Passes.takeRaw (by decide)).bind fun taken _ _ _ => ?_
  exact (Passes.expect (by decide) _).bind fun _ _ _ _ => After.spanFrom (Passes.pure (.leaf nofun))

theorem passes_elementUse (hp : p.Stands scanned) :
    Passes s elementUse p fun nodes _ => AllRead scanned nodes := by
  refine After.offset ((Passes.expect (by decide) _).bind fun _ q hq _ => ?_)
  refine (Passes.keyword _).bind fun _ q' hq' _ => Passes.optional (.unexpected _) fun r hr => ?_
  refine Passes.skipTrivia.bind fun _ r' hr' _ => (Passes.takeName _).bind fun name t ht _ => ?_
  refine Passes.skipTrivia.bind fun _ t' ht' _ => (Passes.eat (by decide)).bind fun _ u hu _ => ?_
  have hstands : u.Stands scanned :=
    ((((((hp.later hq).later hq').later hr).later hr').later ht).later ht').later hu
  refine After.get ?_
  split
  · exact After.spanFrom (.fail _)
  · rename_i nodes hnodes
    rintro _ _ ⟨⟩
    exact ⟨.of_same rfl rfl, (hstands.templates _ _ hnodes).renumber _⟩

/-- A name that is read in the markup and is a block's is the end of a placeholder. -/
theorem endsBy_of_named {source : List Char} (hscan : scan source = .ok scanned)
    (hs : s.Reads scanned) (hp : p.Stands scanned) {name : String} {q : Progress}
    (hname : Named p name q) {f : Fragment} {b : Placeholder}
    (hf : s.scanned.fragment? name = some f) (hb : f.placeholder = some b) :
    f ∈ scanned.fragments ∧ scanned.EndsBy b.token.toList q.cursor.offset := by
  rw [hs.unit, Scanned.fragment?_eq_some_iff (Scanned.nodup_placeholders hscan), hb] at hf
  obtain ⟨hmem, htoken⟩ := hf
  obtain rfl : b = ⟨name⟩ := Option.some.inj htoken
  obtain ⟨hread, rfl⟩ := hname
  obtain ⟨read, hsplit, hoffset, hbefore⟩ := hp.place
  refine ⟨hmem, read, p.cursor.rest, hsplit, ?_, (eq_takeWhile_of_name? hread).1.symm, ?_⟩
  · rw [← hbefore]
    exact hp.apart.before_of_name hread
  · rw [Cursor.advance, take_of_name? hread, hoffset]

/-- A style block is read into an element, whose rules then stand in the block. -/
theorem passes_addBlock {source : List Char} (hscan : scan source = .ok scanned) {e : Element}
    {n : Nat} (he : e.ReadThrough scanned n) {f : Fragment} {b : Placeholder}
    (hf : f ∈ scanned.fragments) (hb : f.placeholder = some b)
    (hends : scanned.EndsBy b.token.toList n) (span : Span) :
    Passes s (addBlock e f b span) p fun filled _ => filled.ReadThrough scanned n := by
  refine After.read (.ite (fun _ => .fail _) fun _ => .ite (fun _ => ?_) fun _ =>
    .ite (fun _ => .fail _) fun _ => Passes.pure (he.addChildren (.leaf nofun)))
  obtain ⟨-, -, -, -, -, _, _, -, hstart, hstop⟩ := Scanned.blockAt_of_scan hscan hf hb
  have hbody : Passes s (within (.source f.bodyRange.start) f.text.toList (styleBody e true false))
      p fun filled _ => filled.ReadThrough scanned n := by
    refine After.within (After.mono (passes_styleBody true false) ?_)
    rintro filled q ⟨hq, hstyled⟩
    refine ⟨.of_same rfl hq.templates, he.styled hstyled ?_⟩
    rintro r ⟨low, high, hle, hhigh, hspan⟩
    have hhigh := hhigh _ (.start _)
    refine ⟨f, hf, b, hb, hends, ?_⟩
    rw [hspan]
    refine ⟨Nat.le_add_left _ _, Nat.add_le_add_right hle _, ?_⟩
    show high + f.bodyRange.start ≤ f.bodyRange.stop
    omega
  exact hbody.bind fun styled _ _ hstyled =>
    (Passes.consume b).bind fun _ _ _ _ => Passes.pure hstyled

theorem passes_addAttribute (hs : s.Reads scanned) {e : Element} {n start : Nat}
    (he : e.ReadThrough scanned n) (hn : n ≤ start) (hstart : start ≤ p.cursor.offset)
    (name : String) : Passes s (addAttribute e name start) p fun filled q =>
      filled.ReadThrough scanned q.cursor.offset := by
  refine (Passes.takeRaw (by decide)).bind fun (raw, rawStart) q hq _ => ?_
  refine (Passes.eat (by decide)).bind fun _ r hr _ => ?_
  have hle : start ≤ r.cursor.offset := Nat.le_trans hstart (hq.trans hr).offset
  refine After.spanFrom (After.spanOf ((passes_expandedValue _ _).bind fun text t ht _ => ?_))
  have hset (value : AttributeValue) : (e.setAttribute ⟨name, value,
      s.origin.span start r.cursor.offset⟩).ReadThrough scanned t.cursor.offset :=
    (he.setAttribute hn hle (by rw [hs.origin]; rfl)).later ht.offset
  refine .ite (fun _ => Passes.pure ?_) fun _ => ?_
  · refine (he.addChildren ?_).later (Nat.le_trans hn (Nat.le_trans hle ht.offset))
    exact .leaf nofun
  · split
    · exact Passes.pure (hset _)
    · exact Passes.pure (hset _)

theorem passes_branchCondition (b : Branch) (conditional : Bool) (raw : List Char)
    (rawStart start : Nat) : Passes s (branchCondition b conditional raw rawStart start) p
      fun filled _ => filled.children = b.children := by
  refine After.spanFrom (.ite (fun _ => .fail _) fun _ => .ite (fun _ => .fail _) fun _ => ?_)
  refine After.read ?_
  split
  · exact Passes.pure rfl
  · exact .fail _

theorem passes_branchProperty (b : Branch) (conditional : Bool) (name : String) (start : Nat) :
    Passes s (branchProperty b conditional name start) p
      fun filled _ => filled.children = b.children := by
  refine (Passes.takeRaw (by decide)).bind fun (raw, rawStart) _ _ _ => ?_
  refine (Passes.eat (by decide)).bind fun _ _ _ _ => ?_
  refine Passes.optional (Passes.eat (by decide)) fun _ _ => .ite (fun _ => ?_) fun _ => ?_
  · exact passes_branchCondition _ _ _ _ _
  · exact (passes_declaration _ _ _ _ _).bind fun _ _ _ _ => Passes.pure rfl

section

variable {α : Type} {fine : α → Progress → Prop} {source : List Char}

/-- A name that is read in the markup may be a block's, whose placeholder then ends there. -/
theorem passes_named (hscan : scan source = .ok scanned) (hs : s.Reads scanned)
    (hp : p.Stands scanned) (expected : Expectation)
    {more : String → Option (Fragment × Placeholder) → Reader α}
    (hnone : ∀ name q, Later p q → Passes s (more name none) q fine)
    (hsome : ∀ name f b q, Later p q → f ∈ scanned.fragments → f.placeholder = some b →
      scanned.EndsBy b.token.toList q.cursor.offset → Passes s (more name (some (f, b))) q fine) :
    Passes s (do
      let name ← takeName expected
      more name (← block? name)) p fine := by
  refine (Passes.takeName expected).bind fun name q hq hname => ?_
  refine After.block? (hnone name q hq) fun f b hf hb => ?_
  obtain ⟨hmem, hends⟩ := endsBy_of_named hscan hs hp hname hf hb
  exact hsome name f b q hq hmem hb hends

/-- A body ends with its brace. Comments and uses of templates may stand among its items. -/
theorem passes_item (hp : p.Stands scanned) {done : Reader α} (more : List Node → Reader α)
    {named : Nat → Reader α} (hdone : ∀ q, Later p q → Passes s done q fine)
    (hmore : ∀ nodes q, Later p q → AllRead scanned nodes → Passes s (more nodes) q fine)
    (hnamed : ∀ q : Progress, Later p q → Passes s (named q.cursor.offset) q fine) :
    Passes s (do
      skipTrivia
      if ← eat '}' then done
      else if ← atEnd then unexpected .closeBrace
      else
        let start ← offset
        if ← looksAt ['-', '-'] then more [← comment]
        else if (← peek?) = some '@' then more (← elementUse)
        else named start) p fine := by
  refine Passes.skipTrivia.bind fun _ q hq _ => ?_
  refine (Passes.eat (by decide)).bind fun closed r hr _ => ?_
  have hlater := hq.trans hr
  refine .ite (fun _ => hdone r hlater) fun _ => After.atEnd (.ite (fun _ => .unexpected _) ?_)
  refine fun _ => After.offset (After.looksAt (.ite (fun _ => ?_) fun _ => ?_))
  · exact passes_comment.bind fun n t ht hn => hmore [n] t (hlater.trans ht) hn
  refine After.peek? (.ite (fun _ => ?_) fun _ => hnamed r hlater)
  exact (passes_elementUse (hp.later hlater)).bind fun nodes t ht hnodes =>
    hmore nodes t (hlater.trans ht) hnodes

end

theorem Setting.Reads.conditional (hs : s.Reads scanned) :
    Setting.Reads scanned { s with inConditional := true } :=
  ⟨hs.unit, hs.origin⟩

theorem Setting.Reads.template (hs : s.Reads scanned) :
    Setting.Reads scanned { s with inTemplate := true } :=
  ⟨hs.unit, hs.origin⟩

-- One theorem for each reader, along their recursion.
mutual

theorem passes_element {source : List Char} {scanned : Scanned} {s : Setting}
    (hscan : scan source = .ok scanned) (hs : s.Reads scanned) : (limit : Nat) → (tag : String) →
    (start : Nat) → {p : Progress} → p.Stands scanned →
    Passes s (element limit tag start) p fun e _ => AllRead scanned [.element e]
  | 0, _, _, _, _ => .unexpected _
  | limit + 1, tag, start, p, hp => by
    refine Passes.freshId.bind fun id q hq _ => ?_
    refine (Passes.expect (by decide) _).bind fun _ r hr _ => After.spanFrom ?_
    refine (passes_elementItems hscan hs limit ((hp.later hq).later hr)
      (.opened id tag (s.origin.span start r.cursor.offset))).bind fun e t _ he => ?_
    exact After.spanFrom (Passes.pure (.element (he.closed _)))

theorem passes_elementItems {source : List Char} {scanned : Scanned} {s : Setting}
    (hscan : scan source = .ok scanned) (hs : s.Reads scanned) : (limit : Nat) → {p : Progress} →
    {e : Element} → p.Stands scanned → e.ReadThrough scanned p.cursor.offset →
    Passes s (elementItems limit e) p fun filled q => filled.ReadThrough scanned q.cursor.offset
  | 0, _, _, _, _ => .unexpected _
  | limit + 1, p, e, hp, he => by
    have hmore {nodes : List Node} {q : Progress} (hq : Later p q)
        (hnodes : AllRead scanned nodes) :
        Passes s (elementItems limit (e.addChildren nodes)) q fun filled r =>
          filled.ReadThrough scanned r.cursor.offset :=
      passes_elementItems hscan hs limit (hp.later hq) ((he.later hq.offset).addChildren hnodes)
    refine passes_item hp (fun nodes => elementItems limit (e.addChildren nodes))
      (fun q hq => Passes.pure (he.later hq.offset)) (fun nodes q hq => hmore hq) fun q hq => ?_
    refine passes_named hscan hs (hp.later hq) _ (fun name r hr => ?_)
      fun name f b r hr hf hb hends => ?_
    · dsimp only
      refine Passes.skipTrivia.bind fun _ t ht _ => After.peek? (.ite (fun hnext => ?_) fun _ => ?_)
      · obtain ⟨x, hhead, hx⟩ := exists_separator hnext
        refine (Passes.skip_one hhead hx).bind fun _ u hu _ => ?_
        refine (passes_addAttribute hs he hq.offset ?_ name).bind fun filled v hv hfilled => ?_
        · exact Nat.le_trans hr.offset (Nat.le_trans ht.offset hu.offset)
        · exact passes_elementItems hscan hs limit
            (((((hp.later hq).later hr).later ht).later hu).later hv) hfilled
      have hlater := (hq.trans hr).trans ht
      refine .ite (fun _ => .ite (fun _ => ?_) fun _ => ?_) fun _ => .unexpected _
      · exact (passes_textBlock _).bind fun n u hu hn => hmore (hlater.trans hu) hn
      refine .ite (fun _ => ?_) fun _ => .ite (fun _ => After.spanFrom (.fail _)) fun _ => ?_
      · refine (passes_branch hscan hs limit true _ (hp.later hlater)).bind
          fun first u hu hfirst => ?_
        refine (passes_laterBranches hscan hs limit ((hp.later hlater).later hu)).bind
          fun more v hv hmore => ?_
        have hend := (hlater.trans hu).trans hv
        exact passes_elementItems hscan hs limit (hp.later hend)
          ((he.later hend.offset).addChain (List.forall_mem_cons.mpr ⟨hfirst, hmore⟩))
      · exact (passes_element hscan hs limit name _ (hp.later hlater)).bind fun child u hu hchild =>
          hmore (hlater.trans hu) hchild
    · have hlater := hq.trans hr
      refine After.spanFrom ?_
      refine (passes_addBlock hscan (he.later hlater.offset) hf hb hends _).bind
        fun filled u hu hfilled => ?_
      exact passes_elementItems hscan hs limit (hp.later (hlater.trans hu))
        (hfilled.later hu.offset)

theorem passes_laterBranches {source : List Char} {scanned : Scanned} {s : Setting}
    (hscan : scan source = .ok scanned) (hs : s.Reads scanned) : (limit : Nat) → {p : Progress} →
    p.Stands scanned →
    Passes s (laterBranches limit) p fun bs _ => ∀ b ∈ bs, AllRead scanned b.children
  | 0, _, _ => Passes.pure (by simp)
  | limit + 1, p, hp => by
    refine After.cursor (After.bind Passes.skipTrivia fun _ q ⟨hq, _⟩ => After.offset ?_)
    refine After.bind (Passes.keyword _) fun isElse r ⟨hr, _⟩ => ?_
    have hlater := hq.trans hr
    refine .ite (fun _ => Passes.since ?_ hlater) fun _ => ?_
    · refine Passes.skipTrivia.bind fun _ t ht _ => (Passes.keyword _).bind fun isIf u hu _ => ?_
      have hu := (hlater.trans ht).trans hu
      refine .ite (fun _ => Passes.skipTrivia.bind fun _ v hv _ => ?_) fun _ => ?_
      · have hv := hu.trans hv
        refine (passes_branch hscan hs limit true _ (hp.later hv)).bind fun b w hw hb => ?_
        refine (passes_laterBranches hscan hs limit ((hp.later hv).later hw)).bind
          fun more _ _ hmore => ?_
        exact Passes.pure (List.forall_mem_cons.mpr ⟨hb, hmore⟩)
      · exact (passes_branch hscan hs limit false _ (hp.later hu)).bind fun b _ _ hb =>
          Passes.pure (by simpa using hb)
    -- What was skipped in search of another branch is read again.
    · exact After.setCursor (After.pure
        ⟨.of_same rfl hlater.templates, List.forall_mem_nil _⟩)

theorem passes_branch {source : List Char} {scanned : Scanned} {s : Setting}
    (hscan : scan source = .ok scanned) (hs : s.Reads scanned) : (limit : Nat) →
    (conditional : Bool) → (start : Nat) → {p : Progress} → p.Stands scanned →
    Passes s (branch limit conditional start) p fun b _ => AllRead scanned b.children
  | 0, _, _, _, _ => .unexpected _
  | limit + 1, conditional, start, p, hp => by
    refine (Passes.expect (by decide) _).bind fun _ q hq _ => ?_
    have hitems : Passes s (withReader (fun s => { s with inConditional := true })
        (branchItems limit conditional ⟨none, [], [], .point 0⟩)) q
        fun b _ => AllRead scanned b.children :=
      After.withReader (passes_branchItems hscan hs.conditional limit conditional (hp.later hq)
        .nil)
    refine hitems.bind fun b _ _ hb => After.spanFrom (.ite (fun _ => .fail _) fun _ => ?_)
    exact Passes.pure hb

theorem passes_branchItems {source : List Char} {scanned : Scanned} {s : Setting}
    (hscan : scan source = .ok scanned) (hs : s.Reads scanned) : (limit : Nat) →
    (conditional : Bool) → {p : Progress} → {b : Branch} → p.Stands scanned →
    AllRead scanned b.children →
    Passes s (branchItems limit conditional b) p fun filled _ => AllRead scanned filled.children
  | 0, _, _, _, _, _ => .unexpected _
  | limit + 1, conditional, p, b, hp, hb => by
    have hmore {nodes : List Node} {q : Progress} (hq : Later p q)
        (hnodes : AllRead scanned nodes) :
        Passes s (branchItems limit conditional { b with children := b.children ++ nodes }) q
          fun filled _ => AllRead scanned filled.children :=
      passes_branchItems hscan hs limit conditional (hp.later hq) (hb.append hnodes)
    refine passes_item hp
      (fun nodes => branchItems limit conditional { b with children := b.children ++ nodes })
      (fun q hq => Passes.pure hb) (fun nodes q hq => hmore hq) fun q hq => ?_
    refine passes_named hscan hs (hp.later hq) _ (fun name r hr => ?_) fun name f c r hr _ _ _ => ?_
    · dsimp only
      refine Passes.skipTrivia.bind fun _ t ht _ => After.peek? (.ite (fun hnext => ?_) fun _ => ?_)
      · refine (Passes.skip_one hnext (by decide)).bind fun _ u hu _ => ?_
        refine (passes_branchProperty b conditional name _).bind fun filled v hv hfilled => ?_
        exact passes_branchItems hscan hs limit conditional
          (((((hp.later hq).later hr).later ht).later hu).later hv) (hfilled ▸ hb)
      have hlater := (hq.trans hr).trans ht
      refine .ite (fun _ => .ite (fun _ => ?_) fun _ => ?_) fun _ => .unexpected _
      · exact (passes_textBlock _).bind fun n u hu hn => hmore (hlater.trans hu) hn
      refine .ite (fun _ => After.spanFrom (.fail _)) fun _ => ?_
      exact (passes_element hscan hs limit name _ (hp.later hlater)).bind fun child u hu hchild =>
        hmore (hlater.trans hu) hchild
    · exact After.spanFrom (.fail _)

end

/-! ## Templates and documents -/

theorem passes_variableItems (limit : Nat) (values : List (String × String)) :
    Passes s (variableItems limit values) p fun _ _ => True := by
  induction limit generalizing p values with
  | zero => exact Passes.pure trivial
  | succ limit ih =>
    refine Passes.skipTrivia.bind fun _ _ _ _ => ?_
    refine (Passes.eat (by decide)).bind fun closed _ _ _ => ?_
    refine .ite (fun _ => Passes.pure trivial) fun _ => (Passes.takeName _).bind fun key _ _ _ => ?_
    refine Passes.skipTrivia.bind fun _ _ _ _ => ?_
    refine (Passes.expect (by decide) _).bind fun _ _ _ _ => ?_
    refine (Passes.takeRaw (by decide)).bind fun taken _ _ _ => ?_
    exact (Passes.eat (by decide)).bind fun _ _ _ _ => ih _

theorem passes_templateKind : Passes s templateKind p fun _ _ => True := by
  refine Passes.takeName?.bind fun word _ _ _ => ?_
  split
  · exact Passes.pure trivial
  · exact Passes.pure trivial
  · exact Passes.pure trivial
  · exact .unexpected _

section

variable {source : List Char} (hscan : scan source = .ok scanned) (hs : s.Reads scanned)
  (hp : p.Stands scanned)

include hscan hs hp

theorem passes_templateBody (kind : TemplateKind) (start : Nat) :
    Passes s (templateBody kind start) p fun t _ =>
      ∀ nodes, t = .element nodes → AllRead scanned nodes := by
  refine After.spanFrom (After.rest ?_)
  cases kind with
  | style => exact (passes_styleBody _ _).bind fun _ _ _ _ => Passes.pure nofun
  | element =>
    refine (passes_elementItems hscan hs _ hp (.opened _ _ _)).bind fun filled _ _ hfilled => ?_
    split
    · exact .fail _
    · refine .ite (fun _ => Passes.pure ?_) fun _ => After.spanFrom (.fail _)
      rintro _ ⟨⟩
      exact hfilled.children
  | group => exact (passes_variableItems _ _).bind fun _ _ _ _ => Passes.pure nofun

omit hscan hs in
theorem after_define (name : String) {t : Template}
    (ht : ∀ nodes, t = .element nodes → AllRead scanned nodes) :
    After s (modify fun p => { p with templates := p.templates.define name t }) p fun _ q =>
      q.Stands scanned := by
  rintro _ _ ⟨⟩
  refine ⟨hp.place, hp.apart, ?_⟩
  cases t with
  | element nodes =>
    intro other found hfound
    rw [Templates.element?_define] at hfound
    split_ifs at hfound
    · cases hfound
      exact ht nodes rfl
    · exact hp.templates other found hfound
  | style | group => exact hp.templates

theorem after_templateDefinition :
    After s templateDefinition p fun _ q => q.Stands scanned := by
  have hrest {start : Nat} {q : Progress} (hq : q.Stands scanned) : After s (do
      expect ']' .closeBracket
      skipTrivia
      expect '@' .templateKind
      let kind ← templateKind
      skipTrivia
      let name ← takeName .templateName
      skipTrivia
      expect '{' .openBrace
      let template ← withReader (fun s => { s with inTemplate := true }) (templateBody kind start)
      modify fun p => { p with templates := p.templates.define name template }) q
      fun _ r => r.Stands scanned := by
    refine After.bind (Passes.expect (by decide) _) fun _ r ⟨hr, _⟩ => ?_
    refine After.bind Passes.skipTrivia fun _ r' ⟨hr', _⟩ => ?_
    refine After.bind (Passes.expect (by decide) _) fun _ t ⟨ht, _⟩ => ?_
    refine After.bind passes_templateKind fun kind t' ⟨ht', _⟩ => ?_
    refine After.bind Passes.skipTrivia fun _ u ⟨hu, _⟩ => ?_
    refine After.bind (Passes.takeName _) fun name u' ⟨hu', _⟩ => ?_
    refine After.bind Passes.skipTrivia fun _ v ⟨hv, _⟩ => ?_
    refine After.bind (Passes.expect (by decide) _) fun _ w ⟨hw, _⟩ => ?_
    have hstands : w.Stands scanned :=
      (((((((hq.later hr).later hr').later ht).later ht').later hu).later hu').later hv).later hw
    have hbody := passes_templateBody hscan hs.template hstands kind start
    exact After.bind (After.withReader hbody) fun template _ ⟨hlater, htemplate⟩ =>
      after_define (hstands.later hlater) name htemplate
  refine After.offset (After.bind (Passes.expect (by decide) _) fun _ q ⟨hq, _⟩ => ?_)
  refine After.bind Passes.takeName? fun word r ⟨hr, _⟩ => ?_
  have hstands := (hp.later hq).later hr
  split
  · exact hrest hstands
  · exact hrest hstands
  · exact After.bind (After.unexpected _) fun _ _ h => h

end

/-- What a reader of a body gives is as it is, with the progress it leaves. -/
theorem Passes.stands {α : Type} {x : Reader α} {fine : α → Progress → Prop}
    (h : Passes s x p fine) (hp : p.Stands scanned) :
    After s x p fun a q => q.Stands scanned ∧ fine a q :=
  After.mono h fun _ _ ⟨hq, ha⟩ => ⟨hp.later hq, ha⟩

theorem after_rootItem {source : List Char} (hscan : scan source = .ok scanned)
    (hs : s.Reads scanned) (hp : p.Stands scanned) (limit : Nat) :
    After s (rootItem limit) p fun nodes q => q.Stands scanned ∧ AllRead scanned nodes := by
  have hone {x : Reader Node} {q : Progress} (hx : Passes s x q fun n _ => AllRead scanned [n]) :
      Passes s (do return [← x]) q fun nodes _ => AllRead scanned nodes :=
    hx.bind fun n _ _ hn => Passes.pure hn
  refine After.offset (After.looksAt (.ite (fun _ => (hone passes_comment).stands hp) fun _ => ?_))
  refine After.peek? (.ite (fun _ => ?_) fun _ => ?_)
  · exact (after_templateDefinition hscan hs hp).bind fun _ _ hstands =>
      After.pure ⟨hstands, .nil⟩
  refine After.peek? (.ite (fun _ => (passes_elementUse hp).stands hp) fun _ => ?_)
  refine Passes.stands ?_ hp
  refine passes_named hscan hs hp _ (fun name q hq => ?_) fun name f b q hq _ _ _ => ?_
  · dsimp only
    refine Passes.skipTrivia.bind fun _ r hr _ => After.peek? (.ite (fun _ => ?_) fun _ => ?_)
    · refine .ite (fun _ => hone (passes_textBlock _)) fun _ => ?_
      exact (passes_element hscan hs limit name _ ((hp.later hq).later hr)).bind fun e _ _ he =>
        Passes.pure he
    · exact .unexpected _
  · exact After.spanFrom (Passes.pure (.leaf nofun))

theorem after_rootItems {source : List Char} (hscan : scan source = .ok scanned)
    (hs : s.Reads scanned) (hp : p.Stands scanned) (limit : Nat) {nodes : List Node}
    (hnodes : AllRead scanned nodes) :
    After s (rootItems limit nodes) p fun nodes _ => AllRead scanned nodes := by
  induction limit generalizing p nodes with
  | zero => exact After.pure hnodes
  | succ limit ih =>
    refine After.bind Passes.skipTrivia fun _ q ⟨hq, _⟩ => After.atEnd ?_
    refine .ite (fun _ => After.pure hnodes) fun _ => ?_
    exact (after_rootItem hscan hs (hp.later hq) limit).bind fun more r ⟨hr, hmore⟩ =>
      ih hr (hnodes.append hmore)

end Markup

namespace Document

/-- Every element of a document was read item by item. -/
theorem readTo_of_ofScanned {source : List Char} (hscan : scan source = .ok scanned) {d : Document}
    (h : ofScanned scanned = .ok d) {e : Element} (he : e ∈ d.elements) :
    ∃ n, e.ReadTo scanned n := by
  have hstart : Markup.Progress.Stands scanned { cursor := { rest := scanned.markup } } :=
    ⟨.start _, .inl rfl, by simp [Templates.element?]⟩
  have hnodes := Markup.after_rootItems (s := { scanned, origin := .markup scanned }) hscan
    ⟨rfl, rfl⟩ hstart (2 * scanned.markup.length + 2) .nil
  unfold ofScanned at h
  dsimp only at h
  split at h
  · rename_i nodes q hrun
    cases h
    exact hnodes nodes q hrun e (mem_entered_iff_occurs.mp he)
  · cases h

end Document

end Chtl
