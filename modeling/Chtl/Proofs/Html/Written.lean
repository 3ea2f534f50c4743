import Chtl.Proofs.Document.Copies
import Chtl.Proofs.Document.Traversal
import Chtl.Proofs.Html.Recorded

/-!
# What generators write

Every generator writes marks that account for what it records. Start tags belong to elements of the
document, with ids where they are needed, and no placeholder is written more often than it stands in
the document.
-/

set_option autoImplicit false
set_option linter.all false

namespace Chtl.Html

variable {α β : Type}

/-- Records without writing: elements that it records facts about began before. -/
def Notes (around : List String) (x : Generation α) : Prop :=
  ∀ s a s', x.run.run s = (.ok a, s') → Recorded around s [] s'

namespace Notes

variable {around : List String}

theorem pure (a : α) : Notes around (Pure.pure a) := by
  intro s b s' h
  cases h
  exact .quiet around rfl rfl

theorem bind {x : Generation α} {f : α → Generation β} (hx : Notes around x)
    (hf : ∀ a, Notes around (f a)) : Notes around (x >>= f) := by
  intro s b s' h
  obtain ⟨a, middle, hrun, hrun'⟩ := run_bind_eq_ok_iff.mp h
  refine (hx s a middle hrun).seq ?_
  simpa [ids] using hf a middle b s' hrun'

theorem resolving (x : Evaluation Memo α) : Notes around (resolving x) := by
  intro s a s' h
  obtain ⟨_, _, hget, h⟩ := run_bind_eq_ok_iff.mp h
  cases hget
  cases hx : x.run.run s.memo with
  | mk result memo =>
    rw [hx] at h
    cases result with
    | ok b =>
      cases h
      exact .quiet around rfl rfl
    | error e => cases h

theorem beginChain : Notes around beginChain := by
  intro s n s' h
  cases h
  exact .quiet around rfl rfl

theorem recordConditional {b : ConditionalBinding} (hb : b.elementId ∈ around) :
    Notes around (recording (·.recordConditional b)) := by
  intro s a s' h
  cases h
  have hquiet : Recorded around s [] s := .quiet around rfl rfl
  exact { hquiet with conditionals := ⟨[b], rfl, by simpa using .inl hb⟩ }

theorem recordBody {style : StyleMap} {lookup : Lookup Memo}
    {binding : String → String → ConditionalBinding} (ds : List StyleDeclaration)
    (hb : ∀ key value, (binding key value).elementId ∈ around) :
    Notes around (recordBody style lookup binding ds) := by
  induction ds with
  | nil => exact .pure false
  | cons d ds ih =>
    rw [Html.recordBody]
    refine (resolving _).bind ?_
    intro text
    cases text with
    | none => exact ih
    | some value => exact (recordConditional (hb _ _)).bind fun _ => ih.bind fun _ => .pure true

theorem recordBranch (r : Resolver) (style : StyleMap) (target : String) (chain index : Nat)
    (setsAnything : Bool) (condition : Option Condition) (body : List StyleDeclaration) :
    Notes [target] (recordBranch r style target chain index setsAnything condition body) := by
  have htarget (js : Option String) (key value : String) :
      (⟨target, key, js, value, chain, index⟩ : ConditionalBinding).elementId ∈ [target] :=
    List.mem_singleton_self target
  have hrest (js : Option String) : Notes [target] (do
      let recorded ← Html.recordBody style r.lookup
        (fun key value => ⟨target, key, js, value, chain, index⟩) body
      if setsAnything && !recorded then
        recording (·.recordConditional ⟨target, "", js, "", chain, index⟩)
      Pure.pure js) := by
    refine (recordBody body (htarget js)).bind ?_
    intro recorded
    split
    · exact (recordConditional (htarget js "" "")).bind fun _ => .pure js
    · exact .pure js
  unfold Html.recordBranch
  cases condition with
  | none => exact (Notes.pure none).bind fun js => hrest js
  | some c => exact (resolving _).bind fun js => (Notes.pure (some js)).bind fun js => hrest js

end Notes

theorem run_freshId {stem : IdStem} {s s' : GenState} {id : String}
    (h : (freshId stem).run.run s = (.ok id, s')) :
    s'.bridge = s.bridge ∧ s'.ids.taken = id :: s.ids.taken ∧ id ∉ s.ids.taken ∧
      ∃ n, id = IdPool.idText stem n := by
  obtain ⟨hspelled, hfresh, htaken⟩ := s.ids.allocate_fresh stem
  cases h
  exact ⟨rfl, htaken, hfresh, hspelled⟩

theorem run_generatedId {e : Element} {s s' : GenState} {generated : Option String}
    (h : (generatedId e).run.run s = (.ok generated, s')) :
    GivenTo e generated ∧ s'.bridge = s.bridge ∧
      s'.ids.taken = generated.toList ++ s.ids.taken ∧
      ∀ id ∈ generated, id ∉ s.ids.taken ∧ ∃ n, id = IdPool.idText .element n := by
  unfold generatedId at h
  unfold GivenTo
  cases hid : e.id? with
  | some own =>
    rw [hid] at h
    cases h
    exact ⟨rfl, rfl, rfl, by simp⟩
  | none =>
    rw [hid] at h
    cases hneeds : needsId e with
    | false =>
      rw [hneeds] at h
      cases h
      exact ⟨rfl, rfl, rfl, by simp⟩
    | true =>
      rw [hneeds] at h
      obtain ⟨id, middle, hfresh, h⟩ := run_bind_eq_ok_iff.mp h
      cases h
      obtain ⟨hbridge, htaken, hnew⟩ := run_freshId hfresh
      refine ⟨rfl, hbridge, htaken, ?_⟩
      rintro _ ⟨⟩
      exact hnew

theorem foldl_recordResponsive (b : Bridge) (items : List (String × ResponsiveBinding)) :
    items.foldl (fun b item => b.recordResponsive item.1 item.2) b =
      { b with facts := { b.facts with responsive := b.facts.responsive.pushAll items } } := by
  induction items generalizing b with
  | nil => rfl
  | cons item items ih =>
    rw [List.foldl_cons, ih]
    rfl

/-- An element begins: its id is allocated, and what follows variables in it is recorded. -/
theorem recorded_start {e : Element} {generated : Option String} {s s₁ s₂ : GenState}
    (hgenerated : (generatedId e).run.run s = (.ok generated, s₁))
    (hrecord : (recordResponsive e (e.id?.or generated)).run.run s₁ = (.ok (), s₂))
    (style : StyleMap) :
    GivenTo e generated ∧ Recorded [] s [.start e generated style] s₂ := by
  obtain ⟨hgiven, hbridge, htaken, hfresh⟩ := run_generatedId hgenerated
  refine ⟨hgiven, ?_⟩
  have hafter : s₂ = { s₁ with bridge := { s₁.bridge with facts := { s₁.bridge.facts with
      responsive := s₁.bridge.facts.responsive.pushAll
        (Mark.bindings (.start e generated style)) } } } := by
    simp only [Mark.bindings]
    cases hid : e.id?.or generated with
    | none =>
      rw [hid] at hrecord
      cases hrecord
      rfl
    | some id =>
      rw [hid] at hrecord
      cases hrecord
      simp only [foldl_recordResponsive]
  have hids : generatedIds [.start e generated style] = generated.toList := by
    cases generated <;> rfl
  have hcontexts : [Mark.start e generated style].filterMap Mark.context? = [] := rfl
  constructor
  · simp [hafter, hbridge]
  · exact ⟨[], by simp [hafter, hbridge], by simp⟩
  · simp [hafter, hbridge, Mark.wrapper?]
  · simp [hafter, hbridge, hcontexts, Table.insertAll]
  · simp [Mark.parent?]
  · rw [hids, hafter]
    cases generated <;> simpa using htaken
  · rw [hids]
    cases generated with
    | none => simp
    | some id => simpa using (hfresh id rfl).1
  · intro id hid
    rw [hids, Option.mem_toList] at hid
    exact ⟨.element, (hfresh id hid).2⟩

/-- A wrapper begins, for a branch that is shown while a condition holds. -/
theorem recorded_wrapper {id condition : String} {s s₁ s₂ : GenState}
    (hfresh : (freshId .rendering).run.run s = (.ok id, s₁))
    (hrecord : (recording (·.recordRendering ⟨id, condition⟩)).run.run s₁ = (.ok (), s₂)) :
    Recorded [] s [.wrapper id] s₂ := by
  obtain ⟨hbridge, htaken, hnew, hspelled⟩ := run_freshId hfresh
  cases hrecord
  have hids : generatedIds [.wrapper id] = [id] := rfl
  have hcontexts : [Mark.wrapper id].filterMap Mark.context? = [] := rfl
  constructor
  · simp [Bridge.recordRendering, hbridge, Mark.bindings, Table.pushAll]
  · exact ⟨[], by simp [Bridge.recordRendering, hbridge], by simp⟩
  · simp [Bridge.recordRendering, hbridge, Mark.wrapper?]
  · simp [Bridge.recordRendering, hbridge, hcontexts, Table.insertAll]
  · simp [Mark.parent?]
  · simpa [hids] using htaken
  · simpa [hids] using hnew
  · intro other hother
    rw [hids, List.mem_singleton] at hother
    exact ⟨.rendering, hother ▸ hspelled⟩

theorem recorded_placeholder {p : Placeholder} {kind : FragmentKind} {parent : Option String}
    {s s' : GenState} (h : (scriptContext p kind parent).run.run s = (.ok (), s')) :
    Recorded parent.toList s [.placeholder p kind parent] s' := by
  have hids : ids [.placeholder p kind parent] = [] := rfl
  have hgenerated : generatedIds [.placeholder p kind parent] = [] := rfl
  have hparents : [Mark.placeholder p kind parent].filterMap Mark.parent? = parent.toList := by
    cases parent <;> rfl
  have hafter : s' = { s with bridge := { s.bridge with facts := { s.bridge.facts with
      contexts := s.bridge.facts.contexts.insertAll
        ([Mark.placeholder p kind parent].filterMap Mark.context?) } } } := by
    cases kind <;> cases parent <;> cases h <;> rfl
  constructor
  · simp [hafter, Mark.bindings, Table.pushAll]
  · exact ⟨[], by simp [hafter], by simp⟩
  · simp [hafter, Mark.wrapper?]
  · simp [hafter]
  · rw [hparents, hids]
    simp
  · simp [hafter, hgenerated]
  · simp [hgenerated]
  · simp [hgenerated]

/-- Whether a mark is a copy of a placeholder. -/
def Mark.copyOf (token : String) : Mark → Bool
  | placeholder p _ _ => p.token = token
  | _ => false

/-- The marks of a run account for what it records, their elements are owned, and placeholders have
no more copies than allowed. The rules and the script children of an element are written with its
id. -/
structure Accounted (owned : Element → Prop) (around : List String) (copies : String → Nat)
    (s : GenState) (marks : List Mark) (s' : GenState) : Prop where
  recorded : Recorded around s marks s'
  starts : ∀ e generated style, .start e generated style ∈ marks →
    owned e ∧ GivenTo e generated ∧ ∀ p span, Node.placeholder p .script span ∈ e.children →
      .placeholder p .script (e.id?.or generated) ∈ marks
  rules : ∀ e id, .rules e id ∈ marks →
    ∃ generated style, .start e generated style ∈ marks ∧ id = e.id?.or generated
  copies : ∀ token, marks.countP (Mark.copyOf token) ≤ copies token

/-- What a generator writes accounts for what it records. -/
def Writes (owned : Element → Prop) (around : List String) (copies : String → Nat)
    (x : Generation (List Mark)) : Prop :=
  ∀ s marks s', x.run.run s = (.ok marks, s') → Accounted owned around copies s marks s'

/-- A generator writes such a mark in any case. -/
def Emits (wanted : Mark → Prop) (x : Generation (List Mark)) : Prop :=
  ∀ s marks s', x.run.run s = (.ok marks, s') → ∃ m ∈ marks, wanted m

section

variable {owned : Element → Prop} {around : List String} {copies more : String → Nat}
  {s s' s'' : GenState} {marks marks' : List Mark}

theorem Accounted.seq (h : Accounted owned around copies s marks s')
    (h' : Accounted owned (around ++ ids marks) more s' marks' s'') :
    Accounted owned around (fun token => copies token + more token) s (marks ++ marks') s'' := by
  refine ⟨h.recorded.seq h'.recorded, ?_, ?_, ?_⟩
  · intro e generated style he
    rcases List.mem_append.mp he with he | he
    · obtain ⟨howned, hgiven, hscripts⟩ := h.starts e generated style he
      exact ⟨howned, hgiven, fun p span hp => List.mem_append_left _ (hscripts p span hp)⟩
    · obtain ⟨howned, hgiven, hscripts⟩ := h'.starts e generated style he
      exact ⟨howned, hgiven, fun p span hp => List.mem_append_right _ (hscripts p span hp)⟩
  · intro e id he
    rcases List.mem_append.mp he with he | he
    · obtain ⟨generated, style, hstart, hid⟩ := h.rules e id he
      exact ⟨generated, style, List.mem_append_left _ hstart, hid⟩
    · obtain ⟨generated, style, hstart, hid⟩ := h'.rules e id he
      exact ⟨generated, style, List.mem_append_right _ hstart, hid⟩
  · intro token
    have hfirst := h.copies token
    have hlater := h'.copies token
    rw [List.countP_append]
    omega

theorem Accounted.mono {wider : List String} (h : Accounted owned around copies s marks s')
    (hsub : around ⊆ wider) (hle : ∀ token, copies token ≤ more token) :
    Accounted owned wider more s marks s' :=
  ⟨h.recorded.mono hsub, h.starts, h.rules,
    fun token => Nat.le_trans (h.copies token) (hle token)⟩

/-- Marks other than start tags, placeholders and rules. -/
theorem Accounted.plain (owned : Element → Prop) (around : List String) (copies : String → Nat)
    (s : GenState) {m : Mark} (htag : m.tag? = none)
    (hplace : ∀ p kind parent, m ≠ .placeholder p kind parent) (hrules : ∀ e id, m ≠ .rules e id) :
    Accounted owned around copies s [m] s := by
  refine ⟨.plain around s htag hplace, ?_, ?_, ?_⟩
  · intro e generated style he
    rw [← List.mem_singleton.mp he] at htag
    cases htag
  · intro e id he
    exact absurd (List.mem_singleton.mp he).symm (hrules e id)
  · intro token
    cases m with
    | placeholder p kind parent => exact absurd rfl (hplace p kind parent)
    | _ => simp [Mark.copyOf]

theorem Accounted.nothing (owned : Element → Prop) (around : List String) (copies : String → Nat)
    {s s' : GenState} (h : Recorded around s [] s') : Accounted owned around copies s [] s' :=
  ⟨h, by simp, by simp, by simp⟩

theorem Writes.mono {wider : List String} {x : Generation (List Mark)}
    (h : Writes owned around copies x) (hsub : around ⊆ wider)
    (hle : ∀ token, copies token ≤ more token) : Writes owned wider more x :=
  fun s marks s' hrun => (h s marks s' hrun).mono hsub hle

theorem Writes.nothing : Writes owned around copies (pure []) := by
  intro s marks s' h
  cases h
  exact .nothing owned around copies (.quiet around rfl rfl)

theorem Writes.inTurn {budgets : List (String → Nat)} {gens : List (Generation (List Mark))}
    (h : List.Forall₂ (Writes owned around) budgets gens) :
    Writes owned around (fun token => (budgets.map (· token)).sum) (inTurn gens) := by
  induction h with
  | nil => exact .nothing
  | cons hfirst _ ih =>
    intro s marks s' hrun
    obtain ⟨first, middle, hown, hrest⟩ := run_bind_eq_ok_iff.mp hrun
    obtain ⟨rest, last, hrest, hpure⟩ := run_bind_eq_ok_iff.mp hrest
    cases hpure
    have hlater := (ih middle rest s' hrest).mono (List.subset_append_left around (ids first))
      fun token => Nat.le_refl _
    exact ((hfirst s first middle hown).seq hlater).mono (List.Subset.refl _) (by simp)

theorem Emits.inTurn {wanted : Mark → Prop} {g : Generation (List Mark)} (hg : Emits wanted g)
    {gens : List (Generation (List Mark))} (hmem : g ∈ gens) : Emits wanted (inTurn gens) := by
  induction gens with
  | nil => cases hmem
  | cons first gens ih =>
    intro s marks s' hrun
    obtain ⟨own, middle, hown, hrest⟩ := run_bind_eq_ok_iff.mp hrun
    obtain ⟨rest, last, hrest, hpure⟩ := run_bind_eq_ok_iff.mp hrest
    cases hpure
    rcases List.mem_cons.mp hmem with rfl | hmem
    · obtain ⟨m, hm, hwanted⟩ := hg s own middle hown
      exact ⟨m, List.mem_append_left _ hm, hwanted⟩
    · obtain ⟨m, hm, hwanted⟩ := ih hmem middle rest s' hrest
      exact ⟨m, List.mem_append_right _ hm, hwanted⟩

/-- A wrapper with what is in it. -/
theorem Writes.inWrapper {empty : Bool} {condition : String} {content : Generation (List Mark)}
    (h : Writes owned around copies content) :
    Writes owned around copies (inWrapper empty condition content) := by
  unfold Html.inWrapper
  split_ifs with hempty
  · exact .nothing
  · intro s marks s' hrun
    obtain ⟨id, s₁, hfresh, hrun⟩ := run_bind_eq_ok_iff.mp hrun
    obtain ⟨_, s₂, hrecord, hrun⟩ := run_bind_eq_ok_iff.mp hrun
    obtain ⟨inner, s₃, hinner, hpure⟩ := run_bind_eq_ok_iff.mp hrun
    cases hpure
    have hopened : Accounted owned around (fun _ => 0) s [.wrapper id] s₂ :=
      ⟨(recorded_wrapper hfresh hrecord).mono (List.nil_subset _), by simp, by simp,
        by simp [Mark.copyOf]⟩
    have hcontent := (h s₂ inner s' hinner).mono
      (List.subset_append_left around (ids [.wrapper id])) fun token => Nat.le_refl _
    have hclosed := Accounted.plain owned (around ++ ids ([.wrapper id] ++ inner)) (fun _ => 0) s'
      (m := .stop "div") rfl (by simp) (by simp)
    exact ((hopened.seq hcontent).seq hclosed).mono (List.Subset.refl _) (by simp)

/-- The content of an element with its end tag. -/
theorem Writes.closed {tag : String} {empty : Bool} {content : Generation (List Mark)}
    (h : Writes owned around copies content) :
    Writes owned around copies (closed tag empty content) := by
  unfold Html.closed
  split_ifs with hvoid
  · exact .nothing
  · intro s marks s' hrun
    obtain ⟨inner, s₁, hinner, hpure⟩ := run_bind_eq_ok_iff.mp hrun
    cases hpure
    have hclosed := Accounted.plain owned (around ++ ids inner) (fun _ => 0) s' (m := .stop tag) rfl
      (by simp) (by simp)
    exact ((h s inner s' hinner).seq hclosed).mono (List.Subset.refl _) (by simp)

theorem Emits.closed {tag : String} {empty : Bool} {wanted : Mark → Prop}
    {content : Generation (List Mark)} (hempty : empty = false) (h : Emits wanted content) :
    Emits wanted (closed tag empty content) := by
  intro s marks s' hrun
  rw [Html.closed, hempty, Bool.and_false, if_neg Bool.false_ne_true] at hrun
  obtain ⟨inner, s₁, hinner, hpure⟩ := run_bind_eq_ok_iff.mp hrun
  cases hpure
  obtain ⟨m, hm, hwanted⟩ := h s inner s' hinner
  exact ⟨m, List.mem_append_left _ hm, hwanted⟩

end

end Chtl.Html
