import Chtl.Proofs.Outcome
import Chtl.Proofs.Style.Settings
import Mathlib

/-!
# The order in which styles merge

What an element is given comes from its own declarations and, chain after chain, from the first
branch whose condition holds. An account of a run names the settings made on the way; the run
succeeds exactly if there is one, and the style is the one these settings make. The state is that
of the lookup, so that an account also says which conditions and values were evaluated, and in
which order.
-/

set_option autoImplicit false
set_option linter.all false

namespace Chtl

variable {σ : Type} {lookup : Lookup σ}

section

variable {s s' : σ}

theorem isSome_staticText {style : StyleMap} {d : StyleDeclaration} {text : Option String}
    (h : (d.staticText lookup style).run.run s = (.ok text, s')) :
    text.isSome = !d.value.isResponsive := by
  unfold StyleDeclaration.staticText at h
  cases hvalue : d.value with
  | literal value =>
    rw [hvalue] at h
    cases h
    rfl
  | expr e =>
    rw [hvalue] at h
    obtain ⟨v, _, -, hpure⟩ := run_bind_eq_ok_iff.mp h
    cases hpure
    rfl
  | responsive name unit =>
    rw [hvalue] at h
    cases h
    rfl

theorem run_staticText_responsive {style : StyleMap} {d : StyleDeclaration}
    (h : d.value.isResponsive = true) :
    (d.staticText lookup style).run.run s = (.ok none, s) := by
  unfold StyleDeclaration.staticText
  cases hvalue : d.value with
  | literal value => rw [hvalue] at h; cases h
  | expr e => rw [hvalue] at h; cases h
  | responsive name unit => rfl

end

namespace Merge

variable (lookup)

/-- Declarations are evaluated one after the other, each against the style that the settings before
it make. A responsive one sets nothing. -/
inductive Sets (style : Settings → StyleMap) :
    List StyleDeclaration → Settings → σ → Settings → σ → Prop
  | nil {before s} : Sets style [] before s before s
  | pass {d ds before s after s'} : d.value.isResponsive = true → Sets style ds before s after s' →
    Sets style (d :: ds) before s after s'
  | set {d ds before s text middle after s'} : d.value.isResponsive = false →
    (d.staticText lookup (style before)).run.run s = (.ok (some text), middle) →
    Sets style ds (before ++ [(d.key, text)]) middle after s' →
    Sets style (d :: ds) before s after s'

/-- The conditions of branches are evaluated against a style one after the other. -/
inductive Asks (style : StyleMap) : List Branch → σ → List Bool → σ → Prop
  | nil {s} : Asks style [] s [] s
  | cons {b bs s answer middle answers s'} :
    (b.fires lookup style).run.run s = (.ok answer, middle) → Asks style bs middle answers s' →
    Asks style (b :: bs) s (answer :: answers) s'

/-- The first branch that fires. It is the last whose condition is evaluated. -/
def Fires (style : StyleMap) (branches : List Branch) (s : σ) : Option Nat → σ → Prop
  | some i, s' =>
    Asks lookup style (branches.take (i + 1)) s (List.replicate i false ++ [true]) s'
  | none, s' => Asks lookup style branches s (List.replicate branches.length false) s'

/-- The branches of a chain that can be decided at once are asked in turn against the style made so
far, and the body of the first that fires makes its settings. -/
def Applies (own : Settings) (branches : List Branch) (assigned : Settings) (s : σ)
    (first : Option Nat) (after : Settings) (s' : σ) : Prop :=
  match first with
  | none => Fires lookup (Given.mk own assigned).style branches s none s' ∧ after = assigned
  | some i => ∃ b asked, Fires lookup (Given.mk own assigned).style branches s (some i) asked ∧
      branches[i]? = some b ∧
      Sets lookup (fun settings => (Given.mk own settings).style) b.body assigned asked after s'

/-- Chains are applied one after the other. A dynamic one is left out. -/
inductive Chains (own : Settings) :
    List Chain → Settings → σ → List (Option Nat) → Settings → σ → Prop
  | nil {assigned s} : Chains own [] assigned s [] assigned s
  | dynamic {c cs assigned s fired after s'} : c.isDynamic = true →
    Chains own cs assigned s fired after s' →
    Chains own (c :: cs) assigned s (none :: fired) after s'
  | static {c cs assigned s first more middle fired after s'} : c.isDynamic = false →
    Applies lookup own c.branches assigned s first more middle →
    Chains own cs more middle fired after s' →
    Chains own (c :: cs) assigned s (first :: fired) after s'

/-- How the style of an element comes about, by the settings that the element and the branches that
fire make. -/
structure Account (e : Element) (s : σ) (own assigned : Settings) (r : ResolvedStyle) (s' : σ) :
    Prop where
  run : ∃ middle,
    Sets lookup (fun settings => (Given.mk settings []).style) e.style [] s own middle ∧
    Chains lookup own e.chains [] middle r.fired assigned s'
  own_keys : own.keys = (e.style.filter (!·.value.isResponsive)).map (·.key)
  one_each : r.fired.length = e.chains.length
  nodup : r.style.keys.Nodup
  order : r.style.keys = firsts (assigned.keys.filter (· ∉ own.keys)) ++ own.keys
  last : ∀ key, r.style.get? key = Settings.last? (own ++ assigned) key

variable {lookup} {s s' : σ}

/-- A loop over declarations, each evaluated against what has been built so far, makes one more
setting for each that is not responsive. -/
theorem run_loop {β : Type} {loop : β → List StyleDeclaration → Evaluation σ β}
    (built : Settings → β) (style : β → StyleMap) {step : β → String → String → β}
    (hnil : ∀ b, loop b [] = pure b)
    (hcons : ∀ b d ds, loop b (d :: ds) = d.staticText lookup (style b) >>= fun
      | some text => loop (step b d.key text) ds
      | none => loop b ds)
    (hstep : ∀ settings key text,
      step (built settings) key text = built (settings ++ [(key, text)]))
    {ds : List StyleDeclaration} {before : Settings} {result : β} :
    (loop (built before) ds).run.run s = (.ok result, s') ↔
      ∃ after, Sets lookup (fun settings => style (built settings)) ds before s after s' ∧
        result = built after := by
  induction ds generalizing before s with
  | nil =>
    rw [hnil]
    constructor
    · rintro ⟨⟩
      exact ⟨before, .nil, rfl⟩
    · rintro ⟨after, ⟨⟩, rfl⟩
      rfl
  | cons d ds ih =>
    rw [hcons, run_bind_eq_ok_iff]
    constructor
    · rintro ⟨text, middle, htext, hrest⟩
      have hsome := isSome_staticText htext
      cases text with
      | none =>
        obtain ⟨after, hsets, rfl⟩ := ih.mp hrest
        have hd : d.value.isResponsive = true := by simpa using hsome
        rw [run_staticText_responsive hd] at htext
        cases htext
        exact ⟨after, .pass hd hsets, rfl⟩
      | some text =>
        simp only [hstep] at hrest
        obtain ⟨after, hsets, rfl⟩ := ih.mp hrest
        exact ⟨after, .set (by simpa using hsome) htext hsets, rfl⟩
    · rintro ⟨after, hsets, rfl⟩
      cases hsets with
      | pass hd hsets => exact ⟨none, s, run_staticText_responsive hd, ih.mpr ⟨after, hsets, rfl⟩⟩
      | set hd htext hsets =>
        refine ⟨_, _, htext, ?_⟩
        simpa only [hstep] using ih.mpr ⟨after, hsets, rfl⟩

theorem run_staticStyle {ds : List StyleDeclaration} {before : Settings} {style : StyleMap} :
    (staticStyle lookup (Given.mk before []).style ds).run.run s = (.ok style, s') ↔
      ∃ own, Sets lookup (fun settings => (Given.mk settings []).style) ds before s own s' ∧
        style = (Given.mk own []).style :=
  run_loop _ id (fun _ => rfl) (fun _ _ _ => rfl) fun own _ _ => Given.style_declare own

theorem run_applyBody {own assigned : Settings} {ds : List StyleDeclaration} {layers : Layers} :
    (applyBody lookup (Given.mk own assigned).layers ds).run.run s = (.ok layers, s') ↔
      ∃ after, Sets lookup (fun settings => (Given.mk own settings).style) ds assigned s after s' ∧
        layers = (Given.mk own after).layers :=
  run_loop (fun settings => (Given.mk own settings).layers) Layers.style
    (fun _ => rfl) (fun _ _ _ => rfl) fun _ _ _ => Given.layers_assign

section

variable {style : StyleMap} {b : Branch} {bs : List Branch}

theorem fires_cons_none : Fires lookup style (b :: bs) s none s' ↔
    ∃ middle, (b.fires lookup style).run.run s = (.ok false, middle) ∧
      Fires lookup style bs middle none s' := by
  constructor
  · intro h
    cases h with
    | cons hfirst hrest => exact ⟨_, hfirst, hrest⟩
  · rintro ⟨middle, hfirst, hrest⟩
    exact .cons hfirst hrest

theorem fires_cons_zero : Fires lookup style (b :: bs) s (some 0) s' ↔
    (b.fires lookup style).run.run s = (.ok true, s') := by
  constructor
  · intro h
    cases h with
    | cons hfirst hrest => cases hrest; exact hfirst
  · exact fun hfirst => .cons hfirst .nil

theorem fires_cons_succ {i : Nat} : Fires lookup style (b :: bs) s (some (i + 1)) s' ↔
    ∃ middle, (b.fires lookup style).run.run s = (.ok false, middle) ∧
      Fires lookup style bs middle (some i) s' := by
  constructor
  · intro h
    cases h with
    | cons hfirst hrest => exact ⟨_, hfirst, hrest⟩
  · rintro ⟨middle, hfirst, hrest⟩
    exact .cons hfirst hrest

end

theorem run_applyBranches {own assigned : Settings} {branches : List Branch} {index : Nat}
    {layers : Layers} {first : Option Nat} :
    (applyBranches lookup (Given.mk own assigned).layers index branches).run.run s =
        (.ok (layers, first), s') ↔
      ∃ offset after, Applies lookup own branches assigned s offset after s' ∧
        layers = (Given.mk own after).layers ∧ first = offset.map (index + ·) := by
  induction branches generalizing index s with
  | nil =>
    constructor
    · rintro ⟨⟩
      exact ⟨none, assigned, ⟨.nil, rfl⟩, rfl, rfl⟩
    · rintro ⟨_ | i, after, happlies, rfl, rfl⟩
      · obtain ⟨⟨⟩, rfl⟩ := happlies
        rfl
      · obtain ⟨b, asked, -, ⟨⟩, -⟩ := happlies
  | cons b bs ih =>
    rw [applyBranches, run_bind_eq_ok_iff]
    constructor
    · rintro ⟨answer, middle, hanswer, hrest⟩
      cases answer with
      | true =>
        obtain ⟨_, _, hbody, hpure⟩ := run_bind_eq_ok_iff.mp hrest
        cases hpure
        obtain ⟨after, hsets, rfl⟩ := run_applyBody.mp hbody
        exact ⟨some 0, after, ⟨b, middle, fires_cons_zero.mpr hanswer, rfl, hsets⟩, rfl, rfl⟩
      | false =>
        obtain ⟨_ | i, after, happlies, rfl, rfl⟩ := ih.mp hrest
        · exact ⟨none, after, ⟨fires_cons_none.mpr ⟨middle, hanswer, happlies.1⟩, happlies.2⟩, rfl,
            rfl⟩
        · obtain ⟨other, asked, hfires, hother, hsets⟩ := happlies
          refine ⟨some (i + 1), after, ⟨other, asked, ?_, hother, hsets⟩, rfl, ?_⟩
          · exact fires_cons_succ.mpr ⟨middle, hanswer, hfires⟩
          · simp only [Option.map_some]
            congr 1
            omega
    · rintro ⟨_ | _ | i, after, happlies, rfl, rfl⟩
      · obtain ⟨hfires, rfl⟩ := happlies
        obtain ⟨middle, hanswer, hrest⟩ := fires_cons_none.mp hfires
        exact ⟨false, middle, hanswer, ih.mpr ⟨none, _, ⟨hrest, rfl⟩, rfl, rfl⟩⟩
      · obtain ⟨other, asked, hfires, ⟨⟩, hsets⟩ := happlies
        refine ⟨true, asked, fires_cons_zero.mp hfires, ?_⟩
        exact run_bind_eq_ok_iff.mpr ⟨_, s', run_applyBody.mpr ⟨after, hsets, rfl⟩, rfl⟩
      · obtain ⟨other, asked, hfires, hother, hsets⟩ := happlies
        obtain ⟨middle, hanswer, hrest⟩ := fires_cons_succ.mp hfires
        refine ⟨false, middle, hanswer,
          ih.mpr ⟨some i, after, ⟨other, asked, hrest, hother, hsets⟩, rfl, ?_⟩⟩
        simp only [Option.map_some]
        congr 1
        omega

theorem run_applyChains {own assigned : Settings} {chains : List Chain} {layers : Layers}
    {fired : List (Option Nat)} :
    (applyChains lookup (Given.mk own assigned).layers chains).run.run s =
        (.ok (layers, fired), s') ↔
      ∃ after, Chains lookup own chains assigned s fired after s' ∧
        layers = (Given.mk own after).layers := by
  induction chains generalizing assigned s fired with
  | nil =>
    constructor
    · rintro ⟨⟩
      exact ⟨assigned, .nil, rfl⟩
    · rintro ⟨after, ⟨⟩, rfl⟩
      rfl
  | cons c cs ih =>
    rw [applyChains]
    cases hdynamic : c.isDynamic with
    | true =>
      rw [if_pos rfl, run_bind_eq_ok_iff]
      constructor
      · rintro ⟨⟨layers', fired'⟩, _, hrest, ⟨⟩⟩
        obtain ⟨after, hchains, rfl⟩ := ih.mp hrest
        exact ⟨after, .dynamic hdynamic hchains, rfl⟩
      · rintro ⟨after, hchains, rfl⟩
        cases hchains with
        | dynamic _ hchains => exact ⟨_, s', ih.mpr ⟨after, hchains, rfl⟩, rfl⟩
        | static hstatic => rw [hdynamic] at hstatic; cases hstatic
    | false =>
      rw [if_neg Bool.false_ne_true, run_bind_eq_ok_iff]
      constructor
      · rintro ⟨⟨layers', first⟩, middle, hbranches, hrest⟩
        obtain ⟨offset, more, happlies, rfl, rfl⟩ := run_applyBranches.mp hbranches
        obtain ⟨⟨layers', fired'⟩, _, hrest, ⟨⟩⟩ := run_bind_eq_ok_iff.mp hrest
        obtain ⟨after, hchains, rfl⟩ := ih.mp hrest
        have hoffset : offset.map (0 + ·) = offset := by simp
        rw [hoffset]
        exact ⟨after, .static hdynamic happlies hchains, rfl⟩
      · rintro ⟨after, hchains, rfl⟩
        cases hchains with
        | dynamic hdyn => rw [hdynamic] at hdyn; cases hdyn
        | @static _ _ _ _ first more middle _ _ _ _ happlies hchains =>
          refine ⟨_, middle, run_applyBranches.mpr ⟨first, more, happlies, rfl, rfl⟩, ?_⟩
          refine run_bind_eq_ok_iff.mpr ⟨_, s', ih.mpr ⟨after, hchains, rfl⟩, ?_⟩
          simp only [Nat.zero_add, Option.map_id']
          rfl

theorem run_computeStyle {e : Element} {r : ResolvedStyle} :
    (e.computeStyle lookup).run.run s = (.ok r, s') ↔
      ∃ own assigned middle,
        Sets lookup (fun settings => (Given.mk settings []).style) e.style [] s own middle ∧
        Chains lookup own e.chains [] middle r.fired assigned s' ∧
        r.style = (Given.mk own assigned).style := by
  have hnone : ({} : StyleMap) = (Given.mk [] []).style := rfl
  rw [Element.computeStyle, run_bind_eq_ok_iff, hnone]
  constructor
  · rintro ⟨style, middle, hstyle, hrest⟩
    obtain ⟨own, hsets, rfl⟩ := run_staticStyle.mp hstyle
    obtain ⟨⟨layers, fired⟩, _, hlayers, ⟨⟩⟩ := run_bind_eq_ok_iff.mp hrest
    obtain ⟨assigned, hchains, rfl⟩ := run_applyChains.mp hlayers
    exact ⟨own, assigned, middle, hsets, hchains, rfl⟩
  · rintro ⟨own, assigned, middle, hsets, hchains, hstyle⟩
    obtain ⟨style, fired⟩ := r
    obtain rfl := hstyle
    refine ⟨_, middle, run_staticStyle.mpr ⟨own, hsets, rfl⟩, ?_⟩
    exact run_bind_eq_ok_iff.mpr ⟨_, s', run_applyChains.mpr ⟨assigned, hchains, rfl⟩, rfl⟩

theorem Sets.keys_eq {style : Settings → StyleMap} {ds : List StyleDeclaration}
    {before after : Settings} (h : Sets lookup style ds before s after s') :
    after.keys = before.keys ++ (ds.filter (!·.value.isResponsive)).map (·.key) := by
  induction h with
  | nil => simp
  | pass hd _ ih => simp [ih, hd]
  | set hd _ _ ih => simp [ih, hd, Settings.keys_concat]

theorem Chains.length_eq {own assigned after : Settings} {chains : List Chain}
    {fired : List (Option Nat)} (h : Chains lookup own chains assigned s fired after s') :
    fired.length = chains.length := by
  induction h with
  | nil => rfl
  | dynamic _ _ ih => exact congrArg (· + 1) ih
  | static _ _ _ ih => exact congrArg (· + 1) ih

/-- A run succeeds exactly if there is an account of it. For each chain it gives the first branch
whose condition holds on the style made before the chain, and asks no condition behind that one. The
properties that only branches set come first, in the order in which they were first set, then those
of the element in the order of its declarations; each has the text it was given last. -/
theorem computeStyle_eq_ok_iff_account (lookup : Lookup σ) (e : Element) (s s' : σ)
    (r : ResolvedStyle) (hkeys : (e.style.map (·.key)).Nodup) :
    (e.computeStyle lookup).run.run s = (.ok r, s') ↔
      ∃ own assigned, Account lookup e s own assigned r s' := by
  rw [run_computeStyle]
  constructor
  · rintro ⟨own, assigned, middle, hsets, hchains, hstyle⟩
    have hown : own.keys = (e.style.filter (!·.value.isResponsive)).map (·.key) := hsets.keys_eq
    have hnodup : own.keys.Nodup := hown ▸ hkeys.sublist (List.filter_sublist.map _)
    have hgiven : (Given.mk own assigned).keys =
        firsts (assigned.keys.filter (· ∉ own.keys)) ++ own.keys :=
      congrArg (_ ++ ·) (firsts_eq_self hnodup)
    refine ⟨own, assigned, ⟨middle, hsets, hchains⟩, hown, hchains.length_eq, ?_, ?_, ?_⟩
    · rw [hstyle, Given.keys_style]
      exact Given.nodup_keys
    · rw [hstyle, Given.keys_style, hgiven]
    · intro key
      rw [hstyle, Given.get?_style, Given.last?]
  · rintro ⟨own, assigned, haccount⟩
    obtain ⟨middle, hsets, hchains⟩ := haccount.run
    refine ⟨own, assigned, middle, hsets, hchains, Given.eq_style ?_ haccount.last⟩
    have hnodup : own.keys.Nodup := haccount.own_keys ▸ hkeys.sublist (List.filter_sublist.map _)
    rw [haccount.order, Given.keys, Given.ownKeys, firsts_eq_self hnodup, Given.newKeys]

/-- A lookup that counts how often it is asked. A property holds if it is called `on`. -/
def counting : Lookup Nat := fun _ property _ => do
  modify (· + 1)
  pure (.bool (property = "on"))

/-- A branch on a property of another element. -/
def onProperty (property : String) (body : List StyleDeclaration) : Branch where
  condition := some ⟨.reference (.id "other") property (.point 0), ""⟩
  body := body
  children := []
  span := .point 0

/-- An element with two properties, which two chains add to. Between them is one that is left to the
page. -/
def merging : Element where
  nodeId := 0
  tag := "div"
  style := [⟨"color", .literal "red", .point 0⟩, ⟨"width", .literal "10px", .point 0⟩]
  chains := [
    ⟨[onProperty "off" [],
      onProperty "on" [⟨"top", .literal "0", .point 0⟩, ⟨"color", .literal "blue", .point 0⟩],
      onProperty "on" [⟨"left", .literal "3", .point 0⟩]], 0⟩,
    ⟨[⟨some ⟨.dynamic "open" (.point 0), ""⟩, [], [], .point 0⟩], 0⟩,
    ⟨[onProperty "on" [⟨"left", .literal "1", .point 0⟩, ⟨"top", .literal "2", .point 0⟩],
      ⟨none, [⟨"width", .literal "0", .point 0⟩], [], .point 0⟩], 0⟩]
  span := .point 0

theorem computeStyle_merging : (merging.style.map (·.key)).Nodup ∧
    ∃ own assigned, Account counting merging 0 own assigned
      ⟨⟨[("top", "2"), ("left", "1"), ("color", "blue"), ("width", "10px")]⟩,
        [some 1, none, some 0]⟩ 3 := by
  have hkeys : (merging.style.map (·.key)).Nodup := by decide
  refine ⟨hkeys, (computeStyle_eq_ok_iff_account counting merging 0 3 _ hkeys).mp ?_⟩
  change (_ : Except EvalError ResolvedStyle × Nat) = _
  decide +kernel

end Merge

end Chtl
