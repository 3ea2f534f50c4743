import Chtl.Proofs.Document.Numbers
import Chtl.Proofs.Markup.Ledger
import Mathlib.Data.List.Perm.Subperm

/-!
# Node ids that readers give

Readers give node ids in a row, to the elements they open and to the copies of templates. What a
reader gives on holds only ids that it had in hand or that were given on the way, so that in a
document no id stands twice. The rules follow the steps of readers, and the theorems the readers one
by one.
-/

set_option autoImplicit false
set_option linter.all false

namespace Chtl

/-! ## Ids of what is put together -/

namespace Element

theorem numbers_congr {e e' : Element} (hid : e'.nodeId = e.nodeId)
    (hchildren : e'.children = e.children) (hchains : e'.chains = e.chains) :
    e'.numbers = e.numbers := by
  rw [numbers_eq, numbers_eq, hid, hchildren, hchains]

theorem numbers_setAttribute (e : Element) (a : Attribute) :
    (e.setAttribute a).numbers = e.numbers := by
  unfold setAttribute
  split_ifs <;> exact numbers_congr rfl rfl rfl

theorem numbers_setDeclaration (e : Element) (d : StyleDeclaration) :
    (e.setDeclaration d).numbers = e.numbers := by
  unfold setDeclaration
  split_ifs <;> exact numbers_congr rfl rfl rfl

theorem numbers_foldl_setDeclaration (e : Element) (ds : List StyleDeclaration) :
    (ds.foldl setDeclaration e).numbers = e.numbers := by
  induction ds generalizing e with
  | nil => rfl
  | cons d ds ih => rw [List.foldl_cons, ih, numbers_setDeclaration]

theorem numbers_addRule (e : Element) (rule : StyleRule) : (e.addRule rule).numbers = e.numbers := by
  unfold addRule addClass setIdIfAbsent
  split
  · split_ifs <;> exact numbers_congr rfl rfl rfl
  · split_ifs <;> exact numbers_congr rfl rfl rfl
  · exact numbers_congr rfl rfl rfl

end Element

theorem numbersOfNodes_append (ns more : List Node) :
    numbersOfNodes (ns ++ more) = numbersOfNodes ns ++ numbersOfNodes more := by
  simp only [numbersOfNodes_eq_flatMap, List.flatMap_append]

@[simp] theorem numbersOfNodes_singleton (n : Node) : numbersOfNodes [n] = n.numbers :=
  List.append_nil _

theorem Element.numbers_addChildren (e : Element) (nodes : List Node) :
    (e.addChildren nodes).numbers.Perm (e.numbers ++ numbersOfNodes nodes) := by
  rw [numbers_eq, numbers_eq, addChildren, numbersOfNodes_append, List.cons_append,
    List.append_assoc, List.append_assoc]
  exact ((List.perm_append_comm).append_left _).cons _

theorem Element.numbers_addChain (e : Element) (c : Chain) :
    (e.addChain c).numbers = e.numbers ++ c.numbers := by
  simp only [numbers_eq, addChain, numbersOfChains_eq_flatMap, List.flatMap_append,
    List.flatMap_singleton, List.cons_append, List.append_assoc]

theorem Branch.numbers_eq (b : Branch) : b.numbers = numbersOfNodes b.children := by
  cases b
  rw [numbers]

namespace Markup

open Text Reader

variable {α β : Type} {s : Setting}

/-- The ids that are given between two places of a reading. -/
def given (p q : Progress) : List Nat := List.range' p.nextId (q.nextId - p.nextId)

theorem given_eq_nil {p q : Progress} (h : q.nextId = p.nextId) : given p q = [] := by
  rw [given, h, Nat.sub_self, List.range'_zero]

theorem given_append {p q r : Progress} (h : p.nextId ≤ q.nextId) (h' : q.nextId ≤ r.nextId) :
    given p q ++ given q r = given p r := by
  have hmiddle : p.nextId + (q.nextId - p.nextId) = q.nextId := by omega
  have hwhole : q.nextId - p.nextId + (r.nextId - q.nextId) = r.nextId - p.nextId := by omega
  rw [given, given, given, ← hwhole, ← List.range'_append_1, hmiddle]

/-- The reader goes on giving ids, and those in its result are ids in hand or ids that it gave, each
as often as there. -/
def Numbers (s : Setting) (held : List Nat) (x : Reader α) (ids : α → List Nat) : Prop :=
  ∀ p a q, (x.run s).run p = .ok (a, q) → p.nextId ≤ q.nextId ∧ (ids a).Subperm (held ++ given p q)

/-- Nothing in the result of the reader has an id. -/
def Plain (s : Setting) (x : Reader α) : Prop := Numbers s [] x fun _ => []

section

variable {held : List Nat} {x : Reader α} {f : α → Reader β} {ids : α → List Nat}
  {more : β → List Nat}

theorem Numbers.bind (hx : Numbers s held x ids) (hf : ∀ a, Numbers s (ids a) (f a) more) :
    Numbers s held (x >>= f) more := by
  intro p b r hrun
  obtain ⟨a, q, hfirst, hrest⟩ := run_bind_eq_ok.mp hrun
  obtain ⟨hle, hids⟩ := hx p a q hfirst
  obtain ⟨hle', hmore⟩ := hf a q b r hrest
  refine ⟨Nat.le_trans hle hle', hmore.trans ?_⟩
  rw [← given_append hle hle', ← List.append_assoc]
  exact (List.subperm_append_right _).mpr hids

/-- What a step gives comes to what is in hand. -/
theorem Numbers.add (hx : Numbers s [] x ids)
    (hf : ∀ a, Numbers s (held ++ ids a) (f a) more) : Numbers s held (x >>= f) more := by
  have hmore : Numbers s held x fun a => held ++ ids a := by
    intro p a q hrun
    obtain ⟨hle, hids⟩ := hx p a q hrun
    exact ⟨hle, (List.subperm_append_left held).mpr hids⟩
  exact hmore.bind hf

/-- A step with nothing in its result that has an id. -/
theorem Plain.bind (hx : Plain s x) (hf : ∀ a, Numbers s held (f a) more) :
    Numbers s held (x >>= f) more := by
  refine Numbers.add hx fun a => ?_
  rw [List.append_nil]
  exact hf a

/-- What is in hand may lie in another order. -/
theorem Numbers.perm {held' : List Nat} (hx : Numbers s held' x ids) (h : held'.Perm held) :
    Numbers s held x ids := by
  intro p a q hrun
  obtain ⟨hle, hids⟩ := hx p a q hrun
  exact ⟨hle, hids.trans (h.append_right _).subperm⟩

/-- The result may be put aside. -/
theorem Numbers.plain (hx : Numbers s held x ids) : Plain s x := by
  intro p a q hrun
  exact ⟨(hx p a q hrun).1, List.nil_subperm⟩

theorem Numbers.pure {a : α} (h : ids a = held) : Numbers s held (Pure.pure a) ids := by
  rintro p _ _ ⟨⟩
  rw [given_eq_nil rfl, List.append_nil, h]
  exact ⟨Nat.le_refl _, List.Subperm.refl _⟩

theorem Numbers.fail (e : MarkupError) : Numbers s held (Reader.fail e) ids := by
  rintro p a q ⟨⟩

theorem Numbers.unexpected (expected : Expectation) :
    Numbers s held (Reader.unexpected expected) ids :=
  fun _ _ _ hrun => absurd hrun (run_unexpected_ne expected)

theorem Numbers.ite {c : Prop} [Decidable c] {y z : Reader α} (hy : Numbers s held y ids)
    (hz : Numbers s held z ids) : Numbers s held (if c then y else z) ids := by
  split_ifs
  · exact hy
  · exact hz

/-- A step that is only made in some cases. -/
theorem Plain.optional {c : Prop} [Decidable c] {y : Reader β} (hy : Plain s y)
    (hx : Numbers s held x ids) : Numbers s held (if c then y >>= fun _ => x else x) ids :=
  .ite (hy.bind fun _ => hx) hx

theorem Numbers.withReader {g : Setting → Setting} (h : Numbers (g s) held x ids) :
    Numbers s held (withReader g x) ids := h

theorem Numbers.read {g : Setting → Reader α} (h : Numbers s held (g s) ids) :
    Numbers s held (MonadReader.read >>= g) ids := h

theorem Numbers.get {g : Progress → Reader α} (h : ∀ p, Numbers s held (g p) ids) :
    Numbers s held (MonadState.get >>= g) ids :=
  fun p a q hrun => h p p a q hrun

/-- A step that gives no id. -/
theorem Plain.of_same (h : ∀ p a q, (x.run s).run p = .ok (a, q) → q.nextId = p.nextId) :
    Plain s x :=
  fun p a q hrun => ⟨(h p a q hrun).ge, List.nil_subperm⟩

end

/-! ## Steps -/

namespace Plain

theorem cursor : Plain s Reader.cursor := of_same <| by rintro p _ _ ⟨⟩; rfl

theorem setCursor (c : Cursor) : Plain s (Reader.setCursor c) :=
  of_same <| by rintro p _ _ ⟨⟩; rfl

theorem offset : Plain s Reader.offset := of_same <| by rintro p _ _ ⟨⟩; rfl

theorem rest : Plain s Reader.rest := of_same <| by rintro p _ _ ⟨⟩; rfl

theorem peek? : Plain s Reader.peek? := of_same <| by rintro p _ _ ⟨⟩; rfl

theorem atEnd : Plain s Reader.atEnd := of_same <| by rintro p _ _ ⟨⟩; rfl

theorem skip (n : Nat) : Plain s (Reader.skip n) := of_same <| by rintro p _ _ ⟨⟩; rfl

theorem skipTrivia : Plain s Reader.skipTrivia := of_same <| by rintro p _ _ ⟨⟩; rfl

theorem looksAt (lead : List Char) : Plain s (Reader.looksAt lead) :=
  of_same <| by rintro p _ _ ⟨⟩; rfl

theorem spanOf (start stop : Nat) : Plain s (Reader.spanOf start stop) :=
  of_same <| by rintro p _ _ ⟨⟩; rfl

theorem spanFrom (start : Nat) : Plain s (Reader.spanFrom start) :=
  of_same <| by rintro p _ _ ⟨⟩; rfl

theorem takeRaw (stops : List Char) : Plain s (Reader.takeRaw stops) :=
  of_same <| by rintro p _ _ ⟨⟩; rfl

theorem consume (q : Placeholder) : Plain s (Reader.consume q) :=
  of_same <| by rintro p _ _ ⟨⟩; rfl

theorem eat (x : Char) : Plain s (Reader.eat x) :=
  peek?.bind fun _ => .ite ((skip 1).bind fun _ => .pure rfl) (.pure rfl)

theorem expect (x : Char) (expected : Expectation) : Plain s (Reader.expect x expected) :=
  (eat x).bind fun _ => .ite (.pure rfl) (.unexpected expected)

theorem takeName? : Plain s Reader.takeName? := by
  refine rest.bind fun left => ?_
  split
  · exact (skip _).bind fun _ => .pure rfl
  · exact .pure rfl

theorem takeName (expected : Expectation) : Plain s (Reader.takeName expected) := by
  refine takeName?.bind fun found => ?_
  split
  · exact .pure rfl
  · exact .unexpected expected

theorem keyword (word : String) : Plain s (Reader.keyword word) := by
  refine rest.bind fun left => ?_
  split
  · exact .ite ((skip _).bind fun _ => .pure rfl) (.pure rfl)
  · exact .pure rfl

theorem takeBalanced : Plain s Reader.takeBalanced := by
  refine rest.bind fun left => ?_
  split
  · exact (skip _).bind fun _ => .pure rfl
  · exact (skip _).bind fun _ => .unexpected _

theorem block? (name : String) : Plain s (Reader.block? name) := by
  refine .read ?_
  split
  · exact .pure rfl
  · exact .pure rfl

end Plain

/-- An id is new when it is given. -/
theorem Numbers.freshId : Numbers s [] Reader.freshId fun id => [id] := by
  rintro p _ _ ⟨⟩
  refine ⟨Nat.le_succ _, ?_⟩
  rw [given, Nat.add_sub_cancel_left, List.range'_one]
  exact List.Subperm.refl _

theorem Numbers.within {held : List Nat} {x : Reader α} {ids : α → List Nat} {origin : Origin}
    {text : List Char} (h : Numbers { s with origin := origin } held x ids) :
    Numbers s held (Reader.within origin text x) ids := by
  refine Plain.cursor.bind fun outer => (Plain.setCursor _).bind fun _ => ?_
  refine Numbers.bind (.withReader h) fun a => (Plain.setCursor _).bind fun _ => ?_
  exact .pure rfl

/-! ## Styles -/

theorem plain_expandedValue (cs : List Char) (span : Span) : Plain s (expandedValue cs span) := by
  refine .get fun p => ?_
  split
  · exact .pure rfl
  · exact .fail _

theorem plain_declaration (key raw : List Char) (rawStart start : Nat) (conditional : Bool) :
    Plain s (declaration key raw rawStart start conditional) := by
  refine (Plain.spanOf _ _).bind fun span => .ite ?_ (.ite ?_ ?_)
  · exact (Plain.spanOf _ _).bind fun _ => .fail _
  · exact Plain.rest.bind fun _ => .fail _
  · exact (plain_expandedValue _ _).bind fun text =>
      .ite (.fail _) ((Plain.spanFrom _).bind fun _ => .pure rfl)

theorem numbers_styleUse (owner : Element) :
    Numbers s owner.numbers (styleUse owner) Element.numbers := by
  refine Plain.offset.bind fun start => ?_
  refine (Plain.keyword _).bind fun inherits => Plain.skipTrivia.optional ?_
  refine (Plain.expect _ _).bind fun _ => ?_
  refine (Plain.keyword _).bind fun known => Plain.optional (.unexpected _) ?_
  refine Plain.skipTrivia.bind fun _ => ?_
  refine (Plain.takeName _).bind fun name => ?_
  refine Plain.skipTrivia.bind fun _ => ?_
  refine (Plain.eat _).bind fun _ => .get fun p => ?_
  split
  · exact .pure (by rw [Element.numbers_foldl_setDeclaration])
  · exact (Plain.spanFrom _).bind fun _ => .fail _

theorem numbers_styleRule (owner : Element) (allowed : Bool) :
    Numbers s owner.numbers (styleRule owner allowed) Element.numbers := by
  refine Plain.offset.bind fun start => ?_
  refine (Plain.takeRaw _).bind fun taken => .ite ?_ ?_
  · exact (Plain.spanOf _ _).bind fun _ => .fail _
  · refine (Plain.expect _ _).bind fun _ => ?_
    refine Plain.takeBalanced.bind fun body => ?_
    exact (Plain.spanFrom _).bind fun span => .pure (by rw [Element.numbers_addRule])

theorem numbers_styleDeclaration (owner : Element) :
    Numbers s owner.numbers (styleDeclaration owner) Element.numbers := by
  refine Plain.offset.bind fun start => ?_
  refine (Plain.takeRaw _).bind fun taken => ?_
  refine (Plain.eat _).bind fun colon => .ite ?_ ?_
  · refine (Plain.takeRaw _).bind fun raw => ?_
    refine (Plain.eat _).bind fun _ => ?_
    exact (plain_declaration _ _ _ _ _).bind fun d =>
      .pure (by rw [Element.numbers_setDeclaration])
  · exact (Plain.spanOf _ _).bind fun _ => .fail _

theorem numbers_styleItem (owner : Element) (rules : Bool) :
    Numbers s owner.numbers (styleItem owner rules) Element.numbers :=
  Plain.cursor.bind fun _ => .ite (numbers_styleUse owner)
    (.ite (numbers_styleRule owner rules) (numbers_styleDeclaration owner))

theorem numbers_styleItems (rules closed : Bool) (limit : Nat) (owner : Element) :
    Numbers s owner.numbers (styleItems rules closed limit owner) Element.numbers := by
  induction limit generalizing owner with
  | zero => exact .pure rfl
  | succ limit ih =>
    have hitem (ended : Bool) : Numbers s owner.numbers
        (if ended = true then pure owner
          else do
            if ← atEnd then unexpected .closeBrace
            else styleItems rules closed limit (← styleItem owner rules)) Element.numbers :=
      .ite (.pure rfl) (Plain.atEnd.bind fun done =>
        .ite (.unexpected _) ((numbers_styleItem owner rules).bind ih))
    refine Plain.skipTrivia.bind fun _ => ?_
    dsimp only
    split_ifs
    · exact (Plain.eat _).bind hitem
    · exact Plain.atEnd.bind hitem

theorem numbers_styleBody (owner : Element) (rules closed : Bool) :
    Numbers s owner.numbers (styleBody owner rules closed) Element.numbers :=
  Plain.rest.bind fun _ => numbers_styleItems rules closed _ owner

/-! ## Items -/

theorem numbers_comment : Numbers s [] comment Node.numbers := by
  refine Plain.offset.bind fun start => ?_
  refine (Plain.skip _).bind fun _ => Plain.rest.bind fun left => ?_
  exact (Plain.skip _).bind fun _ => (Plain.spanFrom _).bind fun span => .pure rfl

theorem numbers_textBlock (start : Nat) : Numbers s [] (textBlock start) Node.numbers := by
  refine (Plain.expect _ _).bind fun _ => (Plain.takeRaw _).bind fun taken => ?_
  exact (Plain.expect _ _).bind fun _ => (Plain.spanFrom _).bind fun span => .pure rfl

/-- A copy of a template's nodes gets the next ids. -/
theorem numbers_elementUse : Numbers s [] elementUse numbersOfNodes := by
  refine Plain.offset.bind fun start => ?_
  refine (Plain.expect _ _).bind fun _ => ?_
  refine (Plain.keyword _).bind fun known => Plain.optional (.unexpected _) ?_
  refine Plain.skipTrivia.bind fun _ => ?_
  refine (Plain.takeName _).bind fun name => ?_
  refine Plain.skipTrivia.bind fun _ => ?_
  refine (Plain.eat _).bind fun _ => .get fun p => ?_
  split
  · exact (Plain.spanFrom _).bind fun _ => .fail _
  · rename_i nodes _
    rintro p _ _ ⟨⟩
    obtain ⟨hids, hnext⟩ := renumberNodes_inRow p.nextId nodes
    refine ⟨hnext ▸ Nat.le_add_right _ _, ?_⟩
    rw [given, hnext, Nat.add_sub_cancel_left, List.nil_append, ← hids]

theorem numbers_addBlock (e : Element) (f : Fragment) (q : Placeholder) (span : Span) :
    Numbers s e.numbers (addBlock e f q span) Element.numbers := by
  refine .read (.ite (.fail _) (.ite ?_ (.ite (.fail _) ?_)))
  · exact (Numbers.within (numbers_styleBody e true false)).bind fun styled =>
      (Plain.consume q).bind fun _ => .pure rfl
  · refine Numbers.perm (.pure rfl) ?_
    simpa [Node.numbers] using e.numbers_addChildren [.placeholder q f.kind span]

theorem numbers_addAttribute (e : Element) (name : String) (start : Nat) :
    Numbers s e.numbers (addAttribute e name start) Element.numbers := by
  refine (Plain.takeRaw _).bind fun taken => ?_
  refine (Plain.eat _).bind fun _ => ?_
  refine (Plain.spanFrom _).bind fun span => (Plain.spanOf _ _).bind fun textSpan => ?_
  refine (plain_expandedValue _ _).bind fun text => .ite ?_ ?_
  · refine Numbers.perm (.pure rfl) ?_
    simpa [Node.numbers] using e.numbers_addChildren [.text _ span]
  · split
    · exact .pure (e.numbers_setAttribute _)
    · exact .pure (e.numbers_setAttribute _)

theorem numbers_branchCondition (b : Branch) (conditional : Bool) (raw : List Char)
    (rawStart start : Nat) :
    Numbers s b.numbers (branchCondition b conditional raw rawStart start) Branch.numbers := by
  refine (Plain.spanFrom _).bind fun span => .ite (.fail _) (.ite (.fail _) (.read ?_))
  split
  · exact .pure (by rw [Branch.numbers_eq, Branch.numbers_eq])
  · exact .fail _

theorem numbers_branchProperty (b : Branch) (conditional : Bool) (name : String) (start : Nat) :
    Numbers s b.numbers (branchProperty b conditional name start) Branch.numbers := by
  refine (Plain.takeRaw _).bind fun taken => ?_
  refine (Plain.eat _).bind fun comma => Plain.optional (Plain.eat ';') (.ite ?_ ?_)
  · exact numbers_branchCondition _ _ _ _ _
  · exact (plain_declaration _ _ _ _ _).bind fun d =>
      .pure (by rw [Branch.numbers_eq, Branch.numbers_eq])

/-- A body ends with its brace. Comments and uses of templates may stand among its items. -/
theorem numbers_item {held : List Nat} {ids : α → List Nat} {done : Reader α}
    (more : List Node → Reader α) {named : Nat → Reader α} (hdone : Numbers s held done ids)
    (hmore : ∀ nodes, Numbers s (held ++ numbersOfNodes nodes) (more nodes) ids)
    (hnamed : ∀ start, Numbers s held (named start) ids) :
    Numbers s held (do
      skipTrivia
      if ← eat '}' then done
      else if ← atEnd then unexpected .closeBrace
      else
        let start ← offset
        if ← looksAt ['-', '-'] then more [← comment]
        else if (← peek?) = some '@' then more (← elementUse)
        else named start) ids := by
  refine Plain.skipTrivia.bind fun _ => ?_
  refine (Plain.eat _).bind fun closed => .ite hdone ?_
  refine Plain.atEnd.bind fun done => .ite (.unexpected _) ?_
  refine Plain.offset.bind fun start => (Plain.looksAt _).bind fun hyphens => .ite ?_ ?_
  · refine numbers_comment.add fun n => ?_
    rw [← numbersOfNodes_singleton]
    exact hmore [n]
  · exact Plain.peek?.bind fun next => .ite (numbers_elementUse.add hmore) (hnamed start)

-- One theorem for each reader, along their recursion.
mutual

theorem numbers_element {s : Setting} : (limit : Nat) → (tag : String) → (start : Nat) →
    Numbers s [] (element limit tag start) Element.numbers
  | 0, _, _ => .unexpected _
  | limit + 1, tag, start => by
    refine Numbers.freshId.bind fun id => (Plain.expect _ _).bind fun _ => ?_
    refine (Plain.spanFrom _).bind fun span => ?_
    refine (numbers_elementItems limit ⟨id, tag, [], [], [], [], [], span⟩).bind fun e => ?_
    exact (Plain.spanFrom _).bind fun whole => .pure (Element.numbers_congr rfl rfl rfl)

theorem numbers_elementItems {s : Setting} : (limit : Nat) → (e : Element) →
    Numbers s e.numbers (elementItems limit e) Element.numbers
  | 0, _ => .unexpected _
  | limit + 1, e => by
    have hmore (nodes : List Node) : Numbers s (e.numbers ++ numbersOfNodes nodes)
        (elementItems limit (e.addChildren nodes)) Element.numbers :=
      (numbers_elementItems limit (e.addChildren nodes)).perm (e.numbers_addChildren nodes)
    have hone (n : Node) : Numbers s (e.numbers ++ n.numbers)
        (elementItems limit (e.addChildren [n])) Element.numbers := by
      rw [← numbersOfNodes_singleton]
      exact hmore [n]
    refine numbers_item (fun nodes => elementItems limit (e.addChildren nodes)) (.pure rfl) hmore
      fun start => ?_
    refine (Plain.takeName _).bind fun name => (Plain.block? name).bind fun found => ?_
    split
    · exact (Plain.spanFrom _).bind fun span =>
        (numbers_addBlock e _ _ span).bind (numbers_elementItems limit)
    · refine Plain.skipTrivia.bind fun _ => Plain.peek?.bind fun next => .ite ?_ (.ite ?_ ?_)
      · exact (Plain.skip 1).bind fun _ =>
          (numbers_addAttribute e name start).bind (numbers_elementItems limit)
      · refine .ite ((numbers_textBlock start).add hone) (.ite ?_ (.ite ?_ ?_))
        · refine (numbers_branch limit true start).add fun first => ?_
          refine (numbers_laterBranches limit).add fun more => ?_
          have hitems := numbers_elementItems limit (s := s)
            (e.addChain ⟨first :: more, e.children.length⟩)
          rwa [Element.numbers_addChain, Chain.numbers, numbersOfBranches, ← List.append_assoc]
            at hitems
        · exact (Plain.spanFrom _).bind fun _ => .fail _
        · exact (numbers_element limit name start).add fun child => hone (.element child)
      · exact .unexpected _

theorem numbers_laterBranches {s : Setting} : (limit : Nat) →
    Numbers s [] (laterBranches limit) numbersOfBranches
  | 0 => .pure rfl
  | limit + 1 => by
    refine Plain.cursor.bind fun before => Plain.skipTrivia.bind fun _ => ?_
    refine Plain.offset.bind fun start => (Plain.keyword _).bind fun isElse => .ite ?_ ?_
    · refine Plain.skipTrivia.bind fun _ => (Plain.keyword _).bind fun isIf => .ite ?_ ?_
      · refine Plain.skipTrivia.bind fun _ => (numbers_branch limit true start).bind fun b => ?_
        exact (numbers_laterBranches limit).add fun bs => .pure rfl
      · exact (numbers_branch limit false start).bind fun b => .pure (List.append_nil _)
    · exact (Plain.setCursor _).bind fun _ => .pure rfl

theorem numbers_branch {s : Setting} : (limit : Nat) → (conditional : Bool) → (start : Nat) →
    Numbers s [] (branch limit conditional start) Branch.numbers
  | 0, _, _ => .unexpected _
  | limit + 1, conditional, start => by
    refine (Plain.expect _ _).bind fun _ => ?_
    refine Numbers.bind (.withReader (numbers_branchItems limit conditional _)) fun b => ?_
    refine (Plain.spanFrom _).bind fun span => .ite (.fail _) (.pure ?_)
    rw [Branch.numbers_eq, Branch.numbers_eq]

theorem numbers_branchItems {s : Setting} : (limit : Nat) → (conditional : Bool) → (b : Branch) →
    Numbers s b.numbers (branchItems limit conditional b) Branch.numbers
  | 0, _, _ => .unexpected _
  | limit + 1, conditional, b => by
    have hmore (nodes : List Node) : Numbers s (b.numbers ++ numbersOfNodes nodes)
        (branchItems limit conditional { b with children := b.children ++ nodes })
        Branch.numbers := by
      have hitems := numbers_branchItems limit conditional (s := s)
        { b with children := b.children ++ nodes }
      rwa [Branch.numbers_eq, numbersOfNodes_append, ← Branch.numbers_eq] at hitems
    have hone (n : Node) : Numbers s (b.numbers ++ n.numbers)
        (branchItems limit conditional { b with children := b.children ++ [n] })
        Branch.numbers := by
      rw [← numbersOfNodes_singleton]
      exact hmore [n]
    refine numbers_item
      (fun nodes => branchItems limit conditional { b with children := b.children ++ nodes })
      (.pure rfl) hmore fun start => ?_
    refine (Plain.takeName _).bind fun name => (Plain.block? name).bind fun found => ?_
    split
    · exact (Plain.spanFrom _).bind fun _ => .fail _
    · refine Plain.skipTrivia.bind fun _ => Plain.peek?.bind fun next => .ite ?_ (.ite ?_ ?_)
      · exact (Plain.skip 1).bind fun _ => (numbers_branchProperty b conditional name start).bind
          (numbers_branchItems limit conditional)
      · refine .ite ((numbers_textBlock start).add hone) (.ite ?_ ?_)
        · exact (Plain.spanFrom _).bind fun _ => .fail _
        · exact (numbers_element limit name start).add fun child => hone (.element child)
      · exact .unexpected _

end

/-! ## Templates and documents -/

theorem plain_variableItems (limit : Nat) (values : List (String × String)) :
    Plain s (variableItems limit values) := by
  induction limit generalizing values with
  | zero => exact .pure rfl
  | succ limit ih =>
    refine Plain.skipTrivia.bind fun _ => (Plain.eat _).bind fun closed => .ite (.pure rfl) ?_
    refine (Plain.takeName _).bind fun key => Plain.skipTrivia.bind fun _ => ?_
    refine (Plain.expect _ _).bind fun _ => (Plain.takeRaw _).bind fun taken => ?_
    exact (Plain.eat _).bind fun _ => ih _

/-- The ids in a template are never seen again: a copy gets others. -/
theorem plain_templateBody (kind : TemplateKind) (start : Nat) :
    Plain s (templateBody kind start) := by
  refine (Plain.spanFrom _).bind fun span => Plain.rest.bind fun left => ?_
  cases kind with
  | style => exact (numbers_styleBody _ _ _).plain.bind fun e => .pure rfl
  | element =>
    refine (numbers_elementItems _ _).plain.bind fun filled => ?_
    split
    · exact .fail _
    · exact .ite (.pure rfl) ((Plain.spanFrom _).bind fun _ => .fail _)
  | group => exact (plain_variableItems _ _).bind fun values => .pure rfl

theorem plain_templateKind : Plain s templateKind := by
  refine Plain.takeName?.bind fun word => ?_
  split
  · exact .pure rfl
  · exact .pure rfl
  · exact .pure rfl
  · exact .unexpected _

theorem plain_templateDefinition : Plain s templateDefinition := by
  refine Plain.offset.bind fun start => (Plain.expect _ _).bind fun _ => ?_
  refine Plain.takeName?.bind fun word => ?_
  have hdefine (name : String) (template : Template) : Plain s
      (modify fun p => { p with templates := p.templates.define name template }) :=
    .of_same <| by rintro p _ _ ⟨⟩; rfl
  have hrest : Plain s (do
      expect ']' .closeBracket
      skipTrivia
      expect '@' .templateKind
      let kind ← templateKind
      skipTrivia
      let name ← takeName .templateName
      skipTrivia
      expect '{' .openBrace
      let template ← withReader (fun s => { s with inTemplate := true }) (templateBody kind start)
      modify fun p => { p with templates := p.templates.define name template }) := by
    refine (Plain.expect _ _).bind fun _ => Plain.skipTrivia.bind fun _ => ?_
    refine (Plain.expect _ _).bind fun _ => plain_templateKind.bind fun kind => ?_
    refine Plain.skipTrivia.bind fun _ => (Plain.takeName _).bind fun name => ?_
    refine Plain.skipTrivia.bind fun _ => (Plain.expect _ _).bind fun _ => ?_
    exact Plain.bind (.withReader (plain_templateBody kind start)) (hdefine name)
  dsimp only
  split
  · exact hrest
  · exact hrest
  · exact Plain.bind (.unexpected _) fun _ => hrest

theorem numbers_rootItem (limit : Nat) : Numbers s [] (rootItem limit) numbersOfNodes := by
  refine Plain.offset.bind fun start => (Plain.looksAt _).bind fun hyphens => .ite ?_ ?_
  · exact numbers_comment.bind fun n => .pure (numbersOfNodes_singleton n)
  refine Plain.peek?.bind fun bracket => .ite (plain_templateDefinition.bind fun _ => .pure rfl) ?_
  refine Plain.peek?.bind fun use => .ite numbers_elementUse ?_
  refine (Plain.takeName _).bind fun name => (Plain.block? name).bind fun found => ?_
  split
  · exact (Plain.spanFrom _).bind fun _ => .pure rfl
  · refine Plain.skipTrivia.bind fun _ => Plain.peek?.bind fun brace => .ite (.ite ?_ ?_) ?_
    · exact (numbers_textBlock start).bind fun n => .pure (numbersOfNodes_singleton n)
    · exact (numbers_element limit name start).bind fun e =>
        .pure (numbersOfNodes_singleton (.element e))
    · exact .unexpected _

theorem numbers_rootItems (limit : Nat) (nodes : List Node) :
    Numbers s (numbersOfNodes nodes) (rootItems limit nodes) numbersOfNodes := by
  induction limit generalizing nodes with
  | zero => exact .pure rfl
  | succ limit ih =>
    refine Plain.skipTrivia.bind fun _ => Plain.atEnd.bind fun done => .ite (.pure rfl) ?_
    refine (numbers_rootItem limit).add fun more => ?_
    rw [← numbersOfNodes_append]
    exact ih (nodes ++ more)

end Markup

namespace Document

theorem visited_events (d : Document) : (visited d.events).Perm (numbersOfNodes d.children) := by
  rw [visited, events, eventsOfNodes_eq_map, entered_flatten, List.flatMap_map, List.map_flatMap,
    numbersOfNodes_eq_flatMap]
  exact .flatMap_left _ fun n _ => n.visited_perm

theorem numbers_nodup {scanned : Scanned} {d : Document} (h : ofScanned scanned = .ok d) :
    (numbersOfNodes d.children).Nodup := by
  unfold ofScanned at h
  dsimp only at h
  split at h
  · rename_i nodes p hrun
    cases h
    obtain ⟨l, hperm, hsub⟩ := (Markup.numbers_rootItems _ [] _ nodes p hrun).2
    exact hperm.nodup ((List.nodup_range' _).sublist hsub)
  · cases h

/-- No two elements of a document have the same node id, wherever they stand and whether they were
written or copied from a template. -/
theorem nodeIds_nodup {scanned : Scanned} {d : Document} (h : ofScanned scanned = .ok d) :
    (d.elements.map (·.nodeId)).Nodup :=
  d.visited_events.nodup_iff.mpr (numbers_nodup h)

/-- Two copies of a template that has a branch, in another template that stands inside an element and
behind it. -/
theorem nodeIds_nodup_nested :
    ∃ source scanned d, source =
        "[Template] @Element I \x7b li \x7b if \x7b condition: 1 > 0, b \x7b \x7d \x7d ".toList ++
          "i \x7b \x7d \x7d \x7d [Template] @Element L \x7b @Element I; @Element I; \x7d ".toList ++
          "ul \x7b @Element L; p \x7b \x7d \x7d @Element L;".toList ∧
      scan source = .ok scanned ∧ ofScanned scanned = .ok d ∧
      d.elements.map (·.tag) =
        ["ul", "li", "b", "i", "li", "b", "i", "p", "li", "b", "i", "li", "b", "i"] ∧
      (d.elements.map (·.nodeId)).Nodup := by
  obtain ⟨source, hsource⟩ : ∃ source : List Char, source =
      "[Template] @Element I \x7b li \x7b if \x7b condition: 1 > 0, b \x7b \x7d \x7d ".toList ++
        "i \x7b \x7d \x7d \x7d [Template] @Element L \x7b @Element I; @Element I; \x7d ".toList ++
        "ul \x7b @Element L; p \x7b \x7d \x7d @Element L;".toList :=
    ⟨_, rfl⟩
  have hok : ∃ scanned, scan source = .ok scanned ∧ ∃ d, ofScanned scanned = .ok d ∧
      d.elements.map (·.tag) =
        ["ul", "li", "b", "i", "li", "b", "i", "p", "li", "b", "i", "li", "b", "i"] := by
    rw [hsource, String.toList_ofList, String.toList_ofList, String.toList_ofList]
    decide +kernel
  obtain ⟨scanned, hs, d, hd, htags⟩ := hok
  exact ⟨source, scanned, d, hsource, hs, hd, htags, nodeIds_nodup hd⟩

end Document

end Chtl
