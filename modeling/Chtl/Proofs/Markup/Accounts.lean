import Chtl.Markup.Parse
import Chtl.Proofs.Fragment.Token
import Chtl.Proofs.Markup.Ledger

/-!
# Copies of a placeholder that readers make

Every reader of markup pays for the copies of a placeholder in what it reads. Only a name that is a
placeholder gives one; styles, texts and the nodes of templates give none.
-/

set_option autoImplicit false
set_option linter.all false

namespace Chtl.Markup

open Text Reader

variable {l : Ledger} {s : Setting}

/-! ## Styles -/

theorem keeps_expandedValue (cs : List Char) (span : Span) : Keeps l s (expandedValue cs span) := by
  apply Spends.get
  intro p _
  split
  · exact .pure (Nat.le_refl _)
  · exact .fail _

theorem keeps_declaration (key raw : List Char) (rawStart start : Nat) (conditional : Bool) :
    Keeps l s (declaration key raw rawStart start conditional) := by
  apply (Keeps.spanOf _ _).bind
  intro span
  split_ifs
  · exact (Keeps.spanOf _ _).bind fun _ => .fail _
  · exact Keeps.rest.bind fun _ => .fail _
  · apply (keeps_expandedValue _ _).bind
    intro text
    dsimp only
    split_ifs
    · exact .fail _
    · exact (Keeps.spanFrom _).bind fun _ => .pure (Nat.le_refl _)

theorem spends_styleUse (owner : Element) :
    Spends l s (owner.copies l.token) (styleUse owner) (Element.copies l.token) := by
  apply Keeps.offset.bind
  intro start
  apply (Keeps.keyword _).bind
  intro inherits
  apply Keeps.skipTrivia.optional
  apply (Keeps.expect (by decide) _).bind
  intro _
  apply (Keeps.keyword _).bind
  intro known
  apply Keeps.optional (.unexpected _)
  apply Keeps.skipTrivia.bind
  intro _
  apply (Keeps.takeName _).bind
  intro name
  apply Keeps.skipTrivia.bind
  intro _
  apply (Keeps.eat (by decide)).bind
  intro _
  apply Spends.get
  intro p _
  split
  · apply Spends.pure
    rw [Element.copies_foldl_setDeclaration]
  · exact (Keeps.spanFrom _).bind fun _ => .fail _

theorem spends_styleRule (owner : Element) (allowed : Bool) :
    Spends l s (owner.copies l.token) (styleRule owner allowed) (Element.copies l.token) := by
  apply Keeps.offset.bind
  intro start
  apply (Keeps.takeRaw (by decide)).bind
  intro taken
  split_ifs
  · exact (Keeps.spanOf _ _).bind fun _ => .fail _
  · apply (Keeps.expect (by decide) _).bind
    intro _
    apply Keeps.takeBalanced.bind
    intro body
    apply (Keeps.spanFrom _).bind
    intro span
    apply Spends.pure
    rw [Element.copies_addRule]

theorem spends_styleDeclaration (owner : Element) :
    Spends l s (owner.copies l.token) (styleDeclaration owner) (Element.copies l.token) := by
  apply Keeps.offset.bind
  intro start
  apply (Keeps.takeRaw (by decide)).bind
  intro taken
  apply (Keeps.eat (by decide)).bind
  intro colon
  split_ifs
  · apply (Keeps.takeRaw (by decide)).bind
    intro raw
    apply (Keeps.eat (by decide)).bind
    intro _
    apply (keeps_declaration _ _ _ _ _).bind
    intro d
    apply Spends.pure
    rw [Element.copies_setDeclaration]
  · exact (Keeps.spanOf _ _).bind fun _ => .fail _

theorem spends_styleItem (owner : Element) (rules : Bool) :
    Spends l s (owner.copies l.token) (styleItem owner rules) (Element.copies l.token) := by
  apply Keeps.cursor.bind
  intro here
  split_ifs
  · exact spends_styleUse owner
  · dsimp only
    split_ifs
    · exact spends_styleRule owner rules
    · exact spends_styleDeclaration owner

theorem spends_styleItems (rules closed : Bool) (limit : Nat) (owner : Element) :
    Spends l s (owner.copies l.token) (styleItems rules closed limit owner)
      (Element.copies l.token) := by
  induction limit generalizing owner with
  | zero => exact .pure (Nat.le_refl _)
  | succ limit ih =>
    apply Keeps.skipTrivia.bind
    intro _
    have hitem (ended : Bool) : Spends l s (owner.copies l.token)
        (if ended = true then pure owner
          else do
            if ← atEnd then unexpected .closeBrace
            else styleItems rules closed limit (← styleItem owner rules))
        (Element.copies l.token) := by
      split_ifs
      · exact .pure (Nat.le_refl _)
      · apply Keeps.atEnd.bind
        intro done
        split_ifs
        · exact .unexpected _
        · exact (spends_styleItem owner rules).bind ih
    dsimp only
    split_ifs
    · exact (Keeps.eat (by decide)).bind hitem
    · exact Keeps.atEnd.bind hitem

theorem spends_styleBody (owner : Element) (rules closed : Bool) :
    Spends l s (owner.copies l.token) (styleBody owner rules closed) (Element.copies l.token) :=
  Keeps.rest.bind fun _ => spends_styleItems rules closed _ owner

/-! ## Items -/

theorem spends_comment : Spends l s 0 comment (Node.copies l.token) := by
  intro p a p' _ hp hrun
  obtain ⟨_, _, ⟨⟩, hrun⟩ := run_bind_eq_ok.mp hrun
  obtain ⟨_, _, ⟨⟩, hrun⟩ := run_bind_eq_ok.mp hrun
  cases hrun
  have hopened := l.left_advance_le p.cursor 2
  have hline := l.left_advance_le (p.cursor.advance 2) (lineLength (p.cursor.advance 2).rest)
  refine ⟨⟨Cursor.apart_line _, hp.templates⟩, ?_⟩
  simp only [Node.copies, Ledger.total]
  exact Nat.add_le_add_left (Nat.add_le_add_left (Nat.le_trans hline hopened) _) 0

theorem spends_textBlock (start : Nat) :
    Spends l s 0 (textBlock start) (Node.copies l.token) := by
  apply (Keeps.expect (by decide) _).bind
  intro _
  apply (Keeps.takeRaw (by decide)).bind
  intro taken
  apply (Keeps.expect (by decide) _).bind
  intro _
  exact (Keeps.spanFrom _).bind fun _ => .pure (Nat.le_refl _)

theorem spends_elementUse : Spends l s 0 elementUse (copiesInNodes l.token) := by
  apply Keeps.offset.bind
  intro start
  apply (Keeps.expect (by decide) _).bind
  intro _
  apply (Keeps.keyword _).bind
  intro known
  apply Keeps.optional (.unexpected _)
  apply Keeps.skipTrivia.bind
  intro _
  apply (Keeps.takeName _).bind
  intro name
  apply Keeps.skipTrivia.bind
  intro _
  apply (Keeps.eat (by decide)).bind
  intro _
  apply Spends.get
  intro p hp
  split
  · exact (Keeps.spanFrom _).bind fun _ => .fail _
  · rename_i nodes hnodes
    apply Spends.get
    intro q _
    have hnext : Keeps l s (modify fun p : Progress =>
        { p with nextId := (renumberNodes q.nextId nodes).2 }) :=
      .of_same <| by rintro p _ _ ⟨⟩; exact ⟨rfl, rfl, rfl⟩
    apply hnext.bind
    intro _
    apply Spends.pure
    rw [copiesInNodes_renumber, hp.templates name nodes hnodes]

theorem spends_addBlock (hl : l.Permits s) {name : String} {f : Fragment} {p : Placeholder}
    (hf : s.scanned.fragment? name = some f) (hp : f.placeholder = some p) (e : Element)
    (span : Span) :
    Spends l s (e.copies l.token + l.credit name) (addBlock e f p span)
      (Element.copies l.token) := by
  obtain ⟨hkind, hpays⟩ := hl name f p hf hp
  apply Spends.read
  split_ifs with hconditional hstyle htemplate
  · exact .fail _
  · apply ((Spends.within (spends_styleBody e true false)).frame (l.credit name)).bind
    intro styled
    rw [Nat.add_comm]
    exact ((Spends.consume hpays).frame _).bind fun _ => .pure (by simp [Ledger.inner])
  · exact .fail _
  · apply Spends.pure
    have hscript : f.kind = .script := by
      cases hk : f.kind <;> simp_all
    have hle := hpays.copy (by simpa using hconditional) (by simpa [hscript] using htemplate)
    rw [Element.copies_addChildren, copiesInNodes_singleton, Node.copies]
    omega

theorem spends_addAttribute (e : Element) (name : String) (start : Nat) :
    Spends l s (e.copies l.token) (addAttribute e name start) (Element.copies l.token) := by
  apply (Keeps.takeRaw (by decide)).bind
  intro taken
  apply (Keeps.eat (by decide)).bind
  intro _
  apply (Keeps.spanFrom _).bind
  intro span
  apply (Keeps.spanOf _ _).bind
  intro textSpan
  apply (keeps_expandedValue _ _).bind
  intro text
  dsimp only
  split_ifs
  · apply Spends.pure
    rw [Element.copies_addChildren]
    simp [Node.copies]
  · split
    · apply Spends.pure
      rw [Element.copies_setAttribute]
    · apply Spends.pure
      rw [Element.copies_setAttribute]

theorem spends_branchCondition (b : Branch) (conditional : Bool) (raw : List Char)
    (rawStart start : Nat) :
    Spends l s (b.copies l.token) (branchCondition b conditional raw rawStart start)
      (Branch.copies l.token) := by
  apply (Keeps.spanFrom _).bind
  intro span
  split_ifs
  · exact .fail _
  · exact .fail _
  · apply Spends.read
    split
    · apply Spends.pure
      rw [Branch.copies_eq, Branch.copies_eq]
    · exact .fail _

theorem spends_branchProperty (b : Branch) (conditional : Bool) (name : String) (start : Nat) :
    Spends l s (b.copies l.token) (branchProperty b conditional name start)
      (Branch.copies l.token) := by
  apply (Keeps.takeRaw (by decide)).bind
  intro taken
  apply (Keeps.eat (by decide)).bind
  intro comma
  apply Keeps.optional (Keeps.eat (x := ';') (by decide))
  split_ifs
  · exact spends_branchCondition _ _ _ _ _
  · apply (keeps_declaration _ _ _ _ _).bind
    intro d
    apply Spends.pure
    rw [Branch.copies_eq, Branch.copies_eq]

/-- A body ends with its brace. Comments and uses of templates may stand among its items. -/
theorem spends_item {α : Type} {held : Nat} {weight : α → Nat} {done : Reader α}
    (more : List Node → Reader α) {named : Nat → Reader α} (hdone : Spends l s held done weight)
    (hmore : ∀ nodes, Spends l s (held + copiesInNodes l.token nodes) (more nodes) weight)
    (hnamed : ∀ start, Spends l s held (named start) weight) :
    Spends l s held (do
      skipTrivia
      if ← eat '}' then done
      else if ← atEnd then unexpected .closeBrace
      else
        let start ← offset
        if ← looksAt ['-', '-'] then more [← comment]
        else if (← peek?) = some '@' then more (← elementUse)
        else named start) weight := by
  apply Keeps.skipTrivia.bind
  intro _
  apply (Keeps.eat (by decide)).bind
  intro closed
  apply Spends.ite fun _ => hdone
  intro _
  apply Keeps.atEnd.bind
  intro atEnd
  apply Spends.ite fun _ => .unexpected _
  intro _
  apply Keeps.offset.bind
  intro start
  apply (Keeps.looksAt _).bind
  intro hyphens
  apply Spends.ite
  · intro _
    apply spends_comment.add
    intro n
    rw [← copiesInNodes_singleton]
    exact hmore [n]
  intro _
  apply Keeps.peek?.bind
  intro use
  exact .ite (fun _ => spends_elementUse.add hmore) fun _ => hnamed start

mutual

theorem spends_element {l : Ledger} {s : Setting} (hl : l.Permits s) : (limit : Nat) →
    (tag : String) → (start : Nat) →
    Spends l s 0 (element limit tag start) (Element.copies l.token)
  | 0, _, _ => .unexpected _
  | limit + 1, tag, start => by
    apply Keeps.freshId.bind
    intro id
    apply (Keeps.expect (by decide) _).bind
    intro _
    apply (Keeps.spanFrom _).bind
    intro span
    have hitems := spends_elementItems hl limit ⟨id, tag, [], [], [], [], [], span⟩
    rw [Element.copies] at hitems
    apply hitems.bind
    intro e
    apply (Keeps.spanFrom _).bind
    intro whole
    apply Spends.pure
    rw [Element.copies_eq, Element.copies_eq]

theorem spends_elementItems {l : Ledger} {s : Setting} (hl : l.Permits s) : (limit : Nat) →
    (e : Element) → Spends l s (e.copies l.token) (elementItems limit e) (Element.copies l.token)
  | 0, _ => .unexpected _
  | limit + 1, e => by
    have hmore (nodes : List Node) : Spends l s (e.copies l.token + copiesInNodes l.token nodes)
        (elementItems limit (e.addChildren nodes)) (Element.copies l.token) := by
      rw [← Element.copies_addChildren]
      exact spends_elementItems hl limit (e.addChildren nodes)
    have hone (n : Node) : Spends l s (e.copies l.token + n.copies l.token)
        (elementItems limit (e.addChildren [n])) (Element.copies l.token) := by
      rw [← copiesInNodes_singleton]
      exact hmore [n]
    apply spends_item (fun nodes => elementItems limit (e.addChildren nodes))
      (.pure (Nat.le_refl _)) hmore
    intro start
    apply (Spends.takeName _).add
    intro name
    apply Spends.block
    · -- the name belongs to no block, so its credit is not used
      apply Spends.forgo
      apply Keeps.skipTrivia.bind
      intro _
      apply Spends.peek
      intro next
      apply SpendsAt.ite
      · intro hsep
        obtain ⟨x, rfl, hx⟩ := exists_separator hsep
        exact .skip_one hx ((spends_addAttribute e name start).bind (spends_elementItems hl limit))
      intro _
      apply Spends.at
      apply Spends.ite
      · intro _
        apply Spends.ite fun _ => (spends_textBlock start).add hone
        intro _
        apply Spends.ite
        · intro _
          apply (spends_branch hl limit true start).add
          intro first
          apply (spends_laterBranches hl limit).add
          intro more
          have hitems :=
            spends_elementItems hl limit (e.addChain ⟨first :: more, e.children.length⟩)
          rwa [Element.copies_addChain, Chain.copies, copiesInBranches, Nat.mul_add,
            ← Nat.add_assoc] at hitems
        intro _
        apply Spends.ite fun _ => (Keeps.spanFrom _).bind fun _ => .fail _
        intro _
        apply (spends_element hl limit name start).add
        intro child
        have hchild := hone (.element child)
        rwa [Node.copies] at hchild
      · exact fun _ => .unexpected _
    · intro f p hf hp
      apply (Keeps.spanFrom _).bind
      intro span
      exact (spends_addBlock hl hf hp e span).bind (spends_elementItems hl limit)

theorem spends_laterBranches {l : Ledger} {s : Setting} (hl : l.Permits s) : (limit : Nat) →
    Spends l s 0 (laterBranches limit) fun bs => 2 * copiesInBranches l.token bs
  | 0 => .pure (Nat.le_refl _)
  | limit + 1 => by
    have hbranch (conditional : Bool) (start : Nat) (more : Branch → Reader (List Branch))
        (hmore : ∀ b, Spends l s (2 * b.copies l.token) (more b)
          fun bs => 2 * copiesInBranches l.token bs) :
        Spends l s 0 (branch limit conditional start >>= more)
          fun bs => 2 * copiesInBranches l.token bs :=
      (spends_branch hl limit conditional start).bind hmore
    -- without an `else` the blanks are given back, so the cursor is followed here
    intro p a p' _ hp hrun
    obtain ⟨_, _, ⟨⟩, hrun⟩ := run_bind_eq_ok.mp hrun
    obtain ⟨_, q, htrivia, hrun⟩ := run_bind_eq_ok.mp hrun
    obtain ⟨start, _, ⟨⟩, hrun⟩ := run_bind_eq_ok.mp hrun
    obtain ⟨isElse, r, helse, hrun⟩ := run_bind_eq_ok.mp hrun
    obtain ⟨hq, hleq⟩ := Keeps.skipTrivia (l := l) p () q trivial hp htrivia
    obtain ⟨hr, hler⟩ := Keeps.keyword (l := l) "else" q isElse r trivial hq helse
    split_ifs at hrun
    · have helse : Spends l s 0 (do
          skipTrivia
          if ← keyword "if" then
            skipTrivia
            let b ← branch limit true q.cursor.offset
            return b :: (← laterBranches limit)
          else return [← branch limit false q.cursor.offset])
          fun bs => 2 * copiesInBranches l.token bs := by
        apply Keeps.skipTrivia.bind
        intro _
        apply (Keeps.keyword _).bind
        intro isIf
        split_ifs
        · refine Keeps.skipTrivia.bind fun _ => hbranch _ _ _ fun b => ?_
          apply (spends_laterBranches hl limit).add
          intro bs
          apply Spends.pure
          rw [copiesInBranches, Nat.mul_add]
        · refine hbranch _ _ _ fun b => .pure ?_
          simp [copiesInBranches]
      obtain ⟨hp', hle⟩ := helse r a p' trivial hr hrun
      exact ⟨hp', by omega⟩
    · cases hrun
      obtain ⟨hq', hspent⟩ := Keeps.skipTrivia (l := l.inner) p () q trivial hp htrivia
      obtain ⟨-, hspent'⟩ := Keeps.keyword (l := l.inner) "else" q isElse r trivial hq' helse
      refine ⟨⟨hp.apart, hr.templates⟩, ?_⟩
      simp only [Ledger.total, Ledger.inner, copiesInBranches] at hspent hspent' ⊢
      omega

theorem spends_branch {l : Ledger} {s : Setting} (hl : l.Permits s) : (limit : Nat) → (conditional : Bool) →
    (start : Nat) →
    Spends l s 0 (branch limit conditional start) fun b => 2 * b.copies l.token
  | 0, _, _ => .unexpected _
  | limit + 1, conditional, start => by
    apply (Keeps.expect (by decide) _).bind
    intro _
    -- no block may stand in a branch, so nothing has to pay for it
    have hitems {other : Ledger} (hother : other.Permits { s with inConditional := true }) :=
      spends_branchItems hother limit conditional ⟨none, [], [], .point 0⟩
    simp only [Branch.copies] at hitems
    have hpaid := hitems hl.conditional
    have hunpaid := hitems (hl.conditional.nothing (.inl rfl))
    refine Spends.bind (.withReader (hpaid.free hunpaid 2)) fun b => ?_
    apply (Keeps.spanFrom _).bind
    intro span
    split_ifs
    · exact .fail _
    · apply Spends.pure
      rw [Branch.copies_eq, Branch.copies_eq]

theorem spends_branchItems {l : Ledger} {s : Setting} (hl : l.Permits s) : (limit : Nat) →
    (conditional : Bool) → (b : Branch) →
    Spends l s (b.copies l.token) (branchItems limit conditional b) (Branch.copies l.token)
  | 0, _, _ => .unexpected _
  | limit + 1, conditional, b => by
    have hmore (nodes : List Node) : Spends l s (b.copies l.token + copiesInNodes l.token nodes)
        (branchItems limit conditional { b with children := b.children ++ nodes })
        (Branch.copies l.token) := by
      have hitems := spends_branchItems hl limit conditional
        { b with children := b.children ++ nodes }
      rwa [Branch.copies_eq, copiesInNodes_append, ← Branch.copies_eq] at hitems
    have hone (n : Node) : Spends l s (b.copies l.token + n.copies l.token)
        (branchItems limit conditional { b with children := b.children ++ [n] })
        (Branch.copies l.token) := by
      rw [← copiesInNodes_singleton]
      exact hmore [n]
    apply spends_item
      (fun nodes => branchItems limit conditional { b with children := b.children ++ nodes })
      (.pure (Nat.le_refl _)) hmore
    intro start
    apply (Keeps.takeName _).bind
    intro name
    apply Spends.block
    · apply Keeps.skipTrivia.bind
      intro _
      apply Spends.peek
      intro next
      apply SpendsAt.ite
      · intro hcolon
        rw [hcolon]
        exact .skip_one (by decide) ((spends_branchProperty b conditional name start).bind
          (spends_branchItems hl limit conditional))
      intro _
      apply Spends.at
      apply Spends.ite
      · intro _
        apply Spends.ite fun _ => (spends_textBlock start).add hone
        intro _
        apply Spends.ite fun _ => (Keeps.spanFrom _).bind fun _ => .fail _
        intro _
        apply (spends_element hl limit name start).add
        intro child
        have hchild := hone (.element child)
        rwa [Node.copies] at hchild
      · exact fun _ => .unexpected _
    · exact fun f p _ _ => (Keeps.spanFrom _).bind fun _ => .fail _

end

/-! ## Templates -/

theorem keeps_variableItems (limit : Nat) (values : List (String × String)) :
    Keeps l s (variableItems limit values) := by
  induction limit generalizing values with
  | zero => exact .pure (Nat.le_refl _)
  | succ limit ih =>
    apply Keeps.skipTrivia.bind
    intro _
    apply (Keeps.eat (by decide)).bind
    intro closed
    split_ifs
    · exact .pure (Nat.le_refl _)
    apply (Keeps.takeName _).bind
    intro key
    apply Keeps.skipTrivia.bind
    intro _
    apply (Keeps.expect (by decide) _).bind
    intro _
    apply (Keeps.takeRaw (by decide)).bind
    intro taken
    exact (Keeps.eat (by decide)).bind fun _ => ih _

/-- The copies of a placeholder in a template. -/
def templateCopies (token : String) : Template → Nat
  | .element nodes => copiesInNodes token nodes
  | .style _ | .group _ => 0

theorem spends_templateBody (hl : l.Permits s) (kind : TemplateKind) (start : Nat) :
    Spends l s 0 (templateBody kind start) (templateCopies l.token) := by
  apply (Keeps.spanFrom _).bind
  intro span
  apply Keeps.rest.bind
  intro text
  have hholder : Element.copies l.token ⟨0, "", [], [], [], [], [], span⟩ = 0 := by
    rw [Element.copies]
    rfl
  cases kind with
  | style =>
    have hbody := spends_styleBody (l := l) (s := s) ⟨0, "", [], [], [], [], [], span⟩ false true
    rw [hholder] at hbody
    exact hbody.bind fun e => .pure (Nat.zero_le _)
  | element =>
    have hitems := spends_elementItems hl (text.length + 1) ⟨0, "", [], [], [], [], [], span⟩
    rw [hholder] at hitems
    apply hitems.bind
    intro filled
    split
    · exact .fail _
    · split_ifs
      · apply Spends.pure
        rw [templateCopies, Element.copies_eq]
        exact Nat.le_add_right _ _
      · exact (Keeps.spanFrom _).bind fun _ => .fail _
  | group => exact (keeps_variableItems _ _).bind fun values => .pure (Nat.zero_le _)

theorem keeps_templateKind : Keeps l s templateKind := by
  apply Keeps.takeName?.bind
  intro word
  split
  · exact .pure (Nat.le_refl _)
  · exact .pure (Nat.le_refl _)
  · exact .pure (Nat.le_refl _)
  · exact .unexpected _

/-- In a template nothing pays for a copy, so it holds none. -/
theorem keeps_define (hl : l.Permits s) (kind : TemplateKind) (start : Nat) (name : String) :
    Keeps l s (withReader (fun s => { s with inTemplate := true }) (templateBody kind start) >>=
      fun template => modify fun p => { p with templates := p.templates.define name template }) := by
  intro p a p' _ hp hrun
  obtain ⟨template, q, hbody, hrun⟩ := run_bind_eq_ok.mp hrun
  cases hrun
  obtain ⟨hq, hle⟩ := spends_templateBody hl.template kind start p template q trivial hp hbody
  obtain ⟨-, hzero⟩ := spends_templateBody (hl.template.nothing (.inr rfl)) kind start p template q
    trivial hp hbody
  have hempty : templateCopies l.token template = 0 := by
    simpa [Ledger.total, Ledger.nothing] using hzero
  refine ⟨⟨hq.apart, ?_⟩, ?_⟩
  rotate_left
  · unfold Ledger.total at hle ⊢
    dsimp only
    omega
  cases template with
  | element nodes =>
    intro other found hfound
    rw [Templates.element?_define] at hfound
    split_ifs at hfound
    · cases hfound
      exact hempty
    · exact hq.templates other found hfound
  | style declarations => exact hq.templates
  | group values => exact hq.templates

theorem keeps_templateDefinition (hl : l.Permits s) : Keeps l s templateDefinition := by
  apply Keeps.offset.bind
  intro start
  apply (Keeps.expect (by decide) _).bind
  intro _
  apply Keeps.takeName?.bind
  intro word
  have hrest : Spends l s 0 (do
      expect ']' .closeBracket
      skipTrivia
      expect '@' .templateKind
      let kind ← templateKind
      skipTrivia
      let name ← takeName .templateName
      skipTrivia
      expect '{' .openBrace
      let template ← withReader (fun s => { s with inTemplate := true }) (templateBody kind start)
      modify fun p => { p with templates := p.templates.define name template })
      fun _ => 0 := by
    apply (Keeps.expect (by decide) _).bind
    intro _
    apply Keeps.skipTrivia.bind
    intro _
    apply (Keeps.expect (by decide) _).bind
    intro _
    apply keeps_templateKind.bind
    intro kind
    apply Keeps.skipTrivia.bind
    intro _
    apply (Keeps.takeName _).bind
    intro name
    apply Keeps.skipTrivia.bind
    intro _
    apply (Keeps.expect (by decide) _).bind
    intro _
    exact keeps_define hl kind start name
  dsimp only
  split
  · exact hrest
  · exact hrest
  · exact Keeps.bind (.unexpected _) fun _ => hrest

/-! ## Documents -/

theorem spends_rootItem (hl : l.Permits s) (hconditional : s.inConditional = false)
    (htemplate : s.inTemplate = false) (limit : Nat) :
    Spends l s 0 (rootItem limit) (copiesInNodes l.token) := by
  apply Keeps.offset.bind
  intro start
  apply (Keeps.looksAt _).bind
  intro hyphens
  split_ifs
  · apply spends_comment.bind
    intro n
    apply Spends.pure
    rw [copiesInNodes_singleton]
  apply Keeps.peek?.bind
  intro bracket
  split_ifs
  · exact (keeps_templateDefinition hl).bind fun _ => .pure (Nat.le_refl _)
  apply Keeps.peek?.bind
  intro use
  split_ifs
  · exact spends_elementUse
  apply (Spends.takeName _).add
  intro name
  refine .block ?_ fun f p hf hp => ?_
  · refine Spends.forgo (Keeps.skipTrivia.bind fun _ => Keeps.peek?.bind fun brace => ?_) _
    split_ifs
    · apply (spends_textBlock start).bind
      intro n
      apply Spends.pure
      rw [copiesInNodes_singleton]
    · apply (spends_element hl limit name start).bind
      intro e
      apply Spends.pure
      rw [copiesInNodes_singleton, Node.copies]
    · exact .unexpected _
  · apply (Keeps.spanFrom _).bind
    intro span
    apply Spends.pure
    rw [copiesInNodes_singleton, Node.copies, Nat.zero_add]
    exact (hl name f p hf hp).2.copy hconditional htemplate

theorem spends_rootItems (hl : l.Permits s) (hconditional : s.inConditional = false)
    (htemplate : s.inTemplate = false) (limit : Nat) (nodes : List Node) :
    Spends l s (copiesInNodes l.token nodes) (rootItems limit nodes) (copiesInNodes l.token) := by
  induction limit generalizing nodes with
  | zero => exact .pure (Nat.le_refl _)
  | succ limit ih =>
    apply Keeps.skipTrivia.bind
    intro _
    apply Keeps.atEnd.bind
    intro done
    split_ifs
    · exact .pure (Nat.le_refl _)
    · apply (spends_rootItem hl hconditional htemplate limit).add
      intro more
      rw [← copiesInNodes_append]
      exact ih (nodes ++ more)

end Chtl.Markup

namespace Chtl.Document

/-- The document and its consumed blocks are paid for by the markup. -/
theorem copies_le_left {l : Markup.Ledger} {scanned : Scanned} {d : Document}
    (hl : l.Permits { scanned := scanned, origin := .markup scanned })
    (h : ofScanned scanned = .ok d) :
    copiesInNodes l.token d.children + l.spent d.consumedStyles ≤
      l.spent [] + l.left { rest := scanned.markup } := by
  unfold ofScanned at h
  dsimp only at h
  split at h
  · rename_i nodes p hrun
    cases h
    have hstart : Markup.Progress.Sound l.token { cursor := { rest := scanned.markup } } :=
      ⟨.inl rfl, by simp [Templates.element?]⟩
    obtain ⟨-, hle⟩ := Markup.spends_rootItems hl rfl rfl _ [] _ nodes p trivial hstart hrun
    rw [copiesInNodes, Nat.zero_add] at hle
    unfold Markup.Ledger.total at hle
    dsimp only at hle ⊢
    omega
  · cases h

/-- A placeholder of a unit stands in its document at most once, and not at all if its block became
part of an element. Other placeholders stand nowhere. -/
theorem copies_le {source : List Char} {scanned : Scanned} {d : Document}
    (hmark : ¬ Placeholder.mark <:+: source) (hs : scan source = .ok scanned)
    (h : ofScanned scanned = .ok d) (token : String) :
    copiesInNodes token d.children + (if ⟨token⟩ ∈ d.consumedStyles then 1 else 0) ≤ 1 := by
  have hfound {name : String} {f : Fragment} {p : Placeholder}
      (hf : scanned.fragment? name = some f) (hp : f.placeholder = some p) :
      f ∈ scanned.fragments ∧ f.kind ≠ .markup ∧ p = ⟨name⟩ := by
    have hmem := List.mem_of_find?_eq_some hf
    have htoken := List.find?_some hf
    rw [Scanned.has_token_iff, hp] at htoken
    refine ⟨hmem, ?_, Option.some.inj htoken⟩
    rw [Ne, Scanned.kind_eq_markup_iff hs hmem, hp]
    simp
  by_cases hassigned : (⟨token⟩ : Placeholder) ∈ Scanned.placeholders scanned.fragments
  · have hpermits : (Markup.Ledger.runs token).Permits
        { scanned := scanned, origin := .markup scanned } := by
      intro name f p hf hp
      obtain ⟨-, hkind, rfl⟩ := hfound hf hp
      refine ⟨hkind, ⟨fun _ _ => by simp [Markup.Ledger.runs, String.toList_inj], fun consumed => ?_⟩⟩
      simp only [Markup.Ledger.runs, Markup.Reader.mem_insertAscending]
      by_cases hname : name = token
      · rw [if_pos (congrArg String.toList hname)]
        split_ifs <;> omega
      · have hother : (⟨token⟩ : Placeholder) ≠ ⟨name⟩ :=
          fun heq => hname (Placeholder.mk.inj heq).symm
        simp only [hother, false_or]
        exact Nat.le_add_left _ _
    have hle := copies_le_left hpermits h
    have hnone : (Markup.Ledger.runs token).spent [] = 0 := by simp [Markup.Ledger.runs]
    rw [hnone, Nat.zero_add] at hle
    exact Nat.le_trans hle (Scanned.runs_markup_le_one hmark hs hassigned)
  · have hpermits : (Markup.Ledger.runs token).inner.Permits
        { scanned := scanned, origin := .markup scanned } := by
      intro name f p hf hp
      obtain ⟨hmem, hkind, rfl⟩ := hfound hf hp
      have hother : name ≠ token := by
        rintro rfl
        exact hassigned (List.mem_filterMap.mpr ⟨f, hmem, hp⟩)
      refine ⟨hkind, ⟨fun _ _ => ?_, fun consumed => ?_⟩⟩
      · simp [Markup.Ledger.inner, Markup.Ledger.runs, hother]
      · simp [Markup.Ledger.inner, Markup.Ledger.runs, Markup.Reader.mem_insertAscending, hother.symm]
    exact Nat.le_trans (copies_le_left hpermits h) (Nat.zero_le 1)

/-- A document holds each placeholder of its unit at most once, and no other one. -/
theorem copies_le_one {source : List Char} {scanned : Scanned} {d : Document}
    (hmark : ¬ Placeholder.mark <:+: source) (hs : scan source = .ok scanned)
    (h : ofScanned scanned = .ok d) (token : String) : copiesInNodes token d.children ≤ 1 :=
  Nat.le_trans (Nat.le_add_right _ _) (copies_le hmark hs h token)

end Chtl.Document
