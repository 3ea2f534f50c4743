import Chtl.Proofs.Html.Written
import Chtl.Proofs.Style.Merge

/-!
# What dynamic chains are lowered to

Dynamic chains are numbered as they are written. Every number belongs to one chain of an element, and
what is recorded under it are the branches of this chain: their conditions, what they set, and the
wrappers of their children, each with the guard of its branch. Chains inside a branch have numbers of
their own, so what they record can be told apart.
-/

set_option autoImplicit false
set_option linter.all false

namespace Chtl

/-- Records what several branches set. -/
def Bridge.recordConditionals (b : Bridge) (new : List ConditionalBinding) : Bridge :=
  { b with facts := { b.facts with conditionals := b.facts.conditionals ++ new } }

theorem Bridge.recordConditionals_append (b : Bridge) (new more : List ConditionalBinding) :
    b.recordConditionals (new ++ more) =
      (b.recordConditionals new).recordConditionals more := by
  simp [recordConditionals]

namespace Html

/-- A branch of a dynamic chain with its condition in the page's code, the properties that it sets,
and the id of the wrapper around its children. -/
structure Lowering where
  branch : Branch
  condition : Option String
  settings : List (String × String)
  wrapper : Option String

namespace Lowering

/-- The bindings of a branch, one without a property if the branch sets nothing. -/
def bindings (target : String) (chain index : Nat) (l : Lowering) : List ConditionalBinding :=
  (if l.settings.isEmpty then [("", "")] else l.settings).map fun x =>
    ⟨target, x.1, l.condition, x.2, chain, index⟩

/-- The bindings of branches under their indices. -/
def blocks (target : String) (chain : Nat) : (index : Nat) → List Lowering →
    List (Nat × List ConditionalBinding)
  | _, [] => []
  | index, l :: ls => (index, l.bindings target chain index) :: blocks target chain (index + 1) ls

/-- A declaration sets a property to its value on a style. -/
def Sets (r : Resolver) (style : StyleMap) (d : StyleDeclaration) (x : String × String) : Prop :=
  x.1 = d.key ∧ ∃ m m', (d.staticText r.lookup style).run.run m = (.ok (some x.2), m')

/-- A condition becomes code on a style. -/
def Lowers (r : Resolver) (style : StyleMap) (c : Condition) (js : String) : Prop :=
  ∃ m m', (r.lowerToJs c.expr style).run.run m = (.ok js, m')

/-- How a branch was lowered, with the conditions of the branches before it. Its children, if it has
any, stand between the marks of a wrapper, which is recorded with the guard of the branch. -/
structure Written (r : Resolver) (style : StyleMap) (target : String) (marks : List Mark)
    (shown : List RenderingBinding) (earlier : List String) (l : Lowering) : Prop where
  condition : Option.Rel (Lowers r style) l.branch.condition l.condition
  settings : List.Forall₂ (Sets r style) (l.branch.body.filter fun d => !d.value.isResponsive)
    l.settings
  unwrapped : l.wrapper = none → l.branch.children = []
  wrapped : ∀ id, l.wrapper = some id → ⟨id, guardText earlier l.condition⟩ ∈ shown ∧
    ∃ s inner s', (inTurn (nodes r (some target) l.branch.children)).run.run s = (.ok inner, s') ∧
      .wrapper id :: inner ++ [.stop "div"] <:+: marks

end Lowering

/-- A dynamic chain as it is written for the element that owns it. -/
structure Emission where
  owner : Element
  generated : Option String
  style : StyleMap
  chain : Chain
  lowerings : List Lowering

namespace Emission

/-- The id of the owner. -/
def target (x : Emission) : String := (x.owner.id?.or x.generated).getD ""

/-- Whether a branch has declarations. -/
def setsAnything (x : Emission) : Bool := x.chain.branches.any fun b => !b.body.isEmpty

def conditions (x : Emission) : List (Option String) := x.lowerings.map (·.condition)

/-- What a chain with a number leaves in the page and among what is recorded: its branches in their
order, and under its number what they set. -/
structure Written (r : Resolver) (marks : List Mark) (new : List ConditionalBinding)
    (shown : List RenderingBinding) (n : Nat) (x : Emission) : Prop where
  start : .start x.owner x.generated x.style ∈ marks
  chain : x.chain ∈ x.owner.chains
  dynamic : x.chain.isDynamic = true
  branches : x.lowerings.map (·.branch) = x.chain.branches
  lowered : ∀ k (l : Lowering), x.lowerings[k]? = some l →
    l.Written r x.style x.target marks shown (x.conditions.take k).reduceOption
  bindings : new.filter (·.chain = n) =
    if x.setsAnything then (Lowering.blocks x.target n 0 x.lowerings).flatMap (·.2) else []

end Emission

section

variable {r : Resolver} {style : StyleMap} {target : String} {marks marks' : List Mark}
  {new new' : List ConditionalBinding} {shown shown' : List RenderingBinding}

theorem Lowering.Written.mono {earlier : List String} {l : Lowering}
    (h : l.Written r style target marks shown earlier) (hmarks : marks <:+: marks')
    (hshown : shown ⊆ shown') : l.Written r style target marks' shown' earlier :=
  { h with
    wrapped := fun id hid => by
      obtain ⟨hguard, s, inner, s', hrun, hinfix⟩ := h.wrapped id hid
      exact ⟨hshown hguard, s, inner, s', hrun, hinfix.trans hmarks⟩ }

/-- What is written and recorded besides does not matter, unless it is under the same number. -/
theorem Emission.Written.mono {n : Nat} {x : Emission} (h : x.Written r marks new shown n)
    (hmarks : marks <:+: marks') (hnew : new'.filter (·.chain = n) = new.filter (·.chain = n))
    (hshown : shown ⊆ shown') : x.Written r marks' new' shown' n :=
  { h with
    start := hmarks.subset h.start
    lowered := fun k l hl => (h.lowered k l hl).mono hmarks hshown
    bindings := hnew.trans h.bindings }

end

/-- What is recorded between two states. Every number that was given out in between belongs to an
emission; nothing is recorded under other numbers but those of the chains `around`. -/
structure Chained (r : Resolver) (around : List Nat) (before : List Mark) (s : GenState)
    (marks : List Mark) (s' : GenState) (new : List ConditionalBinding)
    (shown : List RenderingBinding) : Prop where
  chains_le : s.bridge.chains ≤ s'.bridge.chains
  conditionals : s'.bridge.facts.conditionals = s.bridge.facts.conditionals ++ new
  renderings : s'.bridge.facts.renderings = s.bridge.facts.renderings ++ shown
  numbered : ∀ b ∈ new, b.chain ∈ around ∨ s.bridge.chains ≤ b.chain ∧ b.chain < s'.bridge.chains
  emissions : ∀ n, s.bridge.chains ≤ n → n < s'.bridge.chains →
    ∃ x : Emission, x.Written r (before ++ marks) new shown n

namespace Chained

variable {r : Resolver} {around wider : List Nat} {before marks more : List Mark}
  {s s' s'' : GenState} {new new' : List ConditionalBinding} {shown shown' : List RenderingBinding}

theorem mono (h : Chained r around before s marks s' new shown) (hsub : around ⊆ wider) :
    Chained r wider before s marks s' new shown :=
  { h with numbered := fun b hb => (h.numbered b hb).imp_left (hsub ·) }

/-- What changes nothing of this may write what it wants. -/
theorem quiet (marks : List Mark) (hchains : s'.bridge.chains = s.bridge.chains)
    (hconditionals : s'.bridge.facts.conditionals = s.bridge.facts.conditionals)
    (hrenderings : s'.bridge.facts.renderings = s.bridge.facts.renderings) :
    Chained r around before s marks s' [] [] where
  chains_le := hchains.ge
  conditionals := by rw [hconditionals, List.append_nil]
  renderings := by rw [hrenderings, List.append_nil]
  numbered := by simp
  emissions n hle hlt := by omega

/-- Nothing is recorded under a number that was not given out. -/
theorem filter_eq_nil (h : Chained r around before s marks s' new shown) {n : Nat}
    (haround : n ∉ around) (hn : n < s.bridge.chains ∨ s'.bridge.chains ≤ n) :
    new.filter (·.chain = n) = [] := by
  refine List.filter_eq_nil_iff.mpr fun b hb heq => ?_
  have heq : b.chain = n := by simpa using heq
  rcases h.numbered b hb with hin | hin
  · exact haround (heq ▸ hin)
  · omega

/-- Runs one after the other. The numbers of the one are not those of the other. -/
theorem seq (h : Chained r around before s marks s' new shown)
    (h' : Chained r around (before ++ marks) s' more s'' new' shown')
    (haround : ∀ n ∈ around, n < s.bridge.chains) :
    Chained r around before s (marks ++ more) s'' (new ++ new') (shown ++ shown') := by
  have hle := h.chains_le
  have hle' := h'.chains_le
  have hapart {n : Nat} (hn : s.bridge.chains ≤ n) : n ∉ around := fun hin => by
    have := haround n hin
    omega
  refine ⟨Nat.le_trans hle hle', ?_, ?_, ?_, ?_⟩
  · rw [h'.conditionals, h.conditionals, List.append_assoc]
  · rw [h'.renderings, h.renderings, List.append_assoc]
  · refine List.forall_mem_append.mpr ⟨fun b hb => ?_, fun b hb => ?_⟩
    · exact (h.numbered b hb).imp_right fun ⟨hlow, hhigh⟩ => ⟨hlow, by omega⟩
    · exact (h'.numbered b hb).imp_right fun ⟨hlow, hhigh⟩ => ⟨by omega, hhigh⟩
  · intro n hlow hhigh
    rw [← List.append_assoc]
    by_cases hn : n < s'.bridge.chains
    · obtain ⟨x, hx⟩ := h.emissions n hlow hn
      have hnone := h'.filter_eq_nil (hapart hlow) (.inl hn)
      refine ⟨x, hx.mono (List.prefix_append _ _).isInfix ?_ (List.subset_append_left _ _)⟩
      rw [List.filter_append, hnone, List.append_nil]
    · obtain ⟨x, hx⟩ := h'.emissions n (by omega) hhigh
      have hnone := h.filter_eq_nil (hapart hlow) (.inr (by omega))
      refine ⟨x, hx.mono (List.infix_refl _) ?_ (List.subset_append_right _ _)⟩
      rw [List.filter_append, hnone, List.nil_append]

end Chained

/-- What a generator writes after certain marks leaves its chains in order. -/
def Chains (r : Resolver) (after : List Mark) (x : Generation (List Mark)) : Prop :=
  ∀ before s marks s', after ⊆ before → x.run.run s = (.ok marks, s') →
    ∃ new shown, Chained r [] before s marks s' new shown

section

variable {r : Resolver} {after wider : List Mark}

theorem Chains.mono {x : Generation (List Mark)} (h : Chains r after x) (hsub : after ⊆ wider) :
    Chains r wider x :=
  fun before s marks s' hbefore => h before s marks s' (List.Subset.trans hsub hbefore)

theorem Chains.nothing : Chains r after (pure []) := by
  intro before s marks s' _ hrun
  cases hrun
  exact ⟨[], [], .quiet [] rfl rfl rfl⟩

theorem Chains.inTurn {gens : List (Generation (List Mark))} (h : ∀ g ∈ gens, Chains r after g) :
    Chains r after (inTurn gens) := by
  induction gens with
  | nil => exact .nothing
  | cons g gens ih =>
    obtain ⟨hfirst, hrest⟩ := List.forall_mem_cons.mp h
    intro before s marks s' hbefore hrun
    obtain ⟨first, middle, hown, hrun⟩ := run_bind_eq_ok_iff.mp hrun
    obtain ⟨rest, last, hmore, hpure⟩ := run_bind_eq_ok_iff.mp hrun
    cases hpure
    obtain ⟨new, shown, hchained⟩ := hfirst before s first middle hbefore hown
    obtain ⟨new', shown', hchained'⟩ := ih hrest (before ++ first) middle rest s'
      (List.Subset.trans hbefore (List.subset_append_left _ _)) hmore
    exact ⟨_, _, hchained.seq hchained' (by simp)⟩

/-- The content of an element with its end tag. -/
theorem Chains.closed {tag : String} {empty : Bool} {content : Generation (List Mark)}
    (h : Chains r after content) : Chains r after (closed tag empty content) := by
  unfold Html.closed
  split_ifs with hvoid
  · exact .nothing
  · intro before s marks s' hbefore hrun
    obtain ⟨inner, s₁, hinner, hpure⟩ := run_bind_eq_ok_iff.mp hrun
    cases hpure
    obtain ⟨new, shown, hchained⟩ := h before s inner s' hbefore hinner
    exact ⟨_, _, hchained.seq (.quiet [.stop tag] rfl rfl rfl) (by simp)⟩

/-- A wrapper is recorded with its condition and has the content between its marks. -/
theorem Chains.inWrapper {empty : Bool} {condition : String} {content : Generation (List Mark)}
    {before marks : List Mark} {s s' : GenState} (h : Chains r after content)
    (hbefore : after ⊆ before)
    (hrun : (inWrapper empty condition content).run.run s = (.ok marks, s')) :
    ∃ new shown wrapper, Chained r [] before s marks s' new shown ∧
      (wrapper = none → empty = true) ∧
      ∀ id, wrapper = some id → ⟨id, condition⟩ ∈ shown ∧
        ∃ s inner s', content.run.run s = (.ok inner, s') ∧
          Mark.wrapper id :: inner ++ [Mark.stop "div"] <:+: marks := by
  unfold Html.inWrapper at hrun
  split_ifs at hrun with hempty
  · cases hrun
    exact ⟨[], [], none, .quiet [] rfl rfl rfl, fun _ => hempty, by simp⟩
  · obtain ⟨id, s₁, hfresh, hrun⟩ := run_bind_eq_ok_iff.mp hrun
    obtain ⟨_, s₂, hrecord, hrun⟩ := run_bind_eq_ok_iff.mp hrun
    obtain ⟨inner, s₃, hinner, hpure⟩ := run_bind_eq_ok_iff.mp hrun
    cases hpure
    obtain ⟨hbridge, -⟩ := run_freshId hfresh
    have hopened : Chained r [] before s [.wrapper id] s₂ [] [⟨id, condition⟩] := by
      cases hrecord
      refine ⟨?_, ?_, ?_, by simp, ?_⟩
      · simp [Bridge.recordRendering, hbridge]
      · simp [Bridge.recordRendering, hbridge]
      · simp [Bridge.recordRendering, hbridge]
      · intro n hlow hhigh
        simp only [Bridge.recordRendering, hbridge] at hhigh
        omega
    obtain ⟨new, shown, hchained⟩ := h (before ++ [.wrapper id]) s₂ inner s'
      (List.Subset.trans hbefore (List.subset_append_left _ _)) hinner
    have hwhole := (hopened.seq hchained (by simp)).seq
      (.quiet [.stop "div"] rfl rfl rfl) (by simp)
    refine ⟨_, _, some id, hwhole, by simp, ?_⟩
    rintro _ ⟨⟩
    exact ⟨by simp, s₂, inner, s', hinner, List.infix_refl _⟩

end

/-! ## Branches -/

section

variable {r : Resolver} {style : StyleMap} {s s' : GenState}

theorem run_resolving {α : Type} {x : Evaluation Memo α} {a : α}
    (h : (resolving x).run.run s = (.ok a, s')) :
    s'.bridge = s.bridge ∧ ∃ m m', x.run.run m = (.ok a, m') := by
  obtain ⟨_, _, hget, h⟩ := run_bind_eq_ok_iff.mp h
  cases hget
  cases hx : x.run.run s.memo with
  | mk result memo =>
    rw [hx] at h
    cases result with
    | ok b =>
      cases h
      exact ⟨rfl, _, _, hx⟩
    | error e => cases h

theorem run_recordBody {binding : String → String → ConditionalBinding}
    {ds : List StyleDeclaration} {recorded : Bool}
    (h : (recordBody style r.lookup binding ds).run.run s = (.ok recorded, s')) :
    ∃ settings, List.Forall₂ (Lowering.Sets r style) (ds.filter fun d => !d.value.isResponsive)
        settings ∧ recorded = !settings.isEmpty ∧
      s'.bridge = s.bridge.recordConditionals (settings.map fun x => binding x.1 x.2) := by
  induction ds generalizing s recorded with
  | nil =>
    cases h
    exact ⟨[], .nil, rfl, by simp [Bridge.recordConditionals]⟩
  | cons d ds ih =>
    rw [recordBody] at h
    obtain ⟨text, s₁, htext, h⟩ := run_bind_eq_ok_iff.mp h
    obtain ⟨hbridge, m, m', hrun⟩ := run_resolving htext
    have hsome := isSome_staticText hrun
    cases text with
    | none =>
      obtain ⟨settings, hsets, hrecorded, hafter⟩ := ih h
      rw [List.filter_cons_of_neg (by simp [← hsome])]
      exact ⟨settings, hsets, hrecorded, by rw [hafter, hbridge]⟩
    | some value =>
      obtain ⟨_, s₂, hrecord, h⟩ := run_bind_eq_ok_iff.mp h
      obtain ⟨_, s₃, hrest, hpure⟩ := run_bind_eq_ok_iff.mp h
      cases hpure
      cases hrecord
      obtain ⟨settings, hsets, -, hafter⟩ := ih hrest
      rw [List.filter_cons_of_pos (by simp [← hsome])]
      refine ⟨(d.key, value) :: settings, .cons ⟨rfl, m, m', hrun⟩ hsets, rfl, ?_⟩
      rw [hafter, List.map_cons, ← List.singleton_append, Bridge.recordConditionals_append, ← hbridge]
      rfl

/-- The condition of a branch is lowered, and what the branch sets is recorded under its index. -/
theorem run_recordBranch {target : String} {chain index : Nat} {setsAnything : Bool} {b : Branch}
    {js : Option String} (hbody : setsAnything = false → b.body = [])
    (h : (recordBranch r style target chain index setsAnything b.condition b.body).run.run s =
      (.ok js, s')) :
    ∃ settings, Option.Rel (Lowering.Lowers r style) b.condition js ∧
      List.Forall₂ (Lowering.Sets r style) (b.body.filter fun d => !d.value.isResponsive) settings ∧
      ∀ wrapper, s'.bridge = s.bridge.recordConditionals
        (if setsAnything then Lowering.bindings target chain index ⟨b, js, settings, wrapper⟩
          else []) := by
  have hrest {js js' : Option String} {s₁ : GenState}
      (hrun : (do
        let recorded ← recordBody style r.lookup
          (fun key value => ⟨target, key, js, value, chain, index⟩) b.body
        if setsAnything && !recorded then
          recording (·.recordConditional ⟨target, "", js, "", chain, index⟩)
        pure js : Generation (Option String)).run.run s₁ = (.ok js', s')) :
      js' = js ∧ ∃ settings, List.Forall₂ (Lowering.Sets r style)
          (b.body.filter fun d => !d.value.isResponsive) settings ∧
        ∀ wrapper, s'.bridge = s₁.bridge.recordConditionals
          (if setsAnything then Lowering.bindings target chain index ⟨b, js, settings, wrapper⟩
            else []) := by
    obtain ⟨recorded, s₂, hrecorded, hrun⟩ := run_bind_eq_ok_iff.mp hrun
    obtain ⟨settings, hsets, rfl, hafter⟩ := run_recordBody hrecorded
    cases hany : setsAnything with
    | false =>
      rw [hany] at hrun
      cases hrun
      rw [hbody hany] at hsets
      cases hsets
      exact ⟨rfl, [], by rw [hbody hany]; exact .nil, fun _ => hafter⟩
    | true =>
      rw [hany] at hrun
      cases settings with
      | nil =>
        obtain ⟨_, s₃, hrecord, hpure⟩ := run_bind_eq_ok_iff.mp hrun
        cases hrecord
        cases hpure
        refine ⟨rfl, [], hsets, fun _ => ?_⟩
        rw [List.map_nil] at hafter
        simp only [hafter]
        simp [Lowering.bindings, Bridge.recordConditional, Bridge.recordConditionals]
      | cons x settings =>
        cases hrun
        exact ⟨rfl, _, hsets, fun _ => hafter⟩
  unfold recordBranch at h
  cases hcondition : b.condition with
  | none =>
    rw [hcondition] at h
    obtain ⟨js', s₁, hpure, h⟩ := run_bind_eq_ok_iff.mp h
    cases hpure
    obtain ⟨rfl, settings, hsets, hafter⟩ := hrest h
    exact ⟨settings, .none, hsets, hafter⟩
  | some c =>
    rw [hcondition] at h
    obtain ⟨text, s₁, htext, h⟩ := run_bind_eq_ok_iff.mp h
    obtain ⟨js', s₂, hpure, h⟩ := run_bind_eq_ok_iff.mp h
    cases hpure
    obtain ⟨hbridge, hlowered⟩ := run_resolving htext
    obtain ⟨rfl, settings, hsets, hafter⟩ := hrest h
    refine ⟨settings, .some hlowered, hsets, ?_⟩
    rwa [← hbridge]

end

end Html

end Chtl
