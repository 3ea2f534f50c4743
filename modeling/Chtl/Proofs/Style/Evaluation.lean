import Chtl.Proofs.Style.Derivation

/-!
# Evaluating by the rules

With answers that come from the styles that elements have, the evaluator succeeds exactly where the
rules of plain evaluation give a result, and with that result.
-/

set_option autoImplicit false
set_option linter.all false

namespace Chtl

section

variable {α β : Type}

/-- What an evaluation without a state comes to. -/
def outcome (x : Evaluation Unit α) : Except EvalError α := (x.run.run ()).1

@[simp] theorem outcome_pure (a : α) : outcome (pure a) = .ok a := rfl

@[simp] theorem outcome_throw (e : EvalError) : outcome (throw e : Evaluation Unit α) = .error e :=
  rfl

@[simp] theorem outcome_lift (x : Except EvalError α) : outcome (Expr.eval.liftExcept x) = x := by
  cases x <;> rfl

@[simp] theorem outcome_bind (x : Evaluation Unit α) (f : α → Evaluation Unit β) :
    outcome (x >>= f) = outcome x >>= fun a => outcome (f a) := by
  unfold outcome
  cases hx : x.run.run () with
  | mk result s =>
    cases result with
    | ok a =>
      rw [run_bind_ok hx]
      rfl
    | error e =>
      rw [run_bind_error hx]
      rfl

end

def stateless (answer : Answers) : Lookup Unit := fun selector property span =>
  Expr.eval.liftExcept (answer selector property span)

/-- The value of a reference, given the styles that elements have. -/
def Document.Refers (d : Document) (styled : Element → ResolvedStyle → Prop) (selector : Selector)
    (property : String) (v : Value) : Prop :=
  ∃ e r text, d.elements.find? selector.accepts = some e ∧ styled e r ∧
    r.style.get? property = some text ∧ v = .ofCss text

theorem truth_eq_ok_iff {v : Value} {span : Span} {b : Bool} :
    v.truth span = .ok b ↔ v = .bool b := by
  cases v <;> simp [Value.truth]

/-- Every operator but the connectives evaluates both operands. -/
theorem eval_binary {σ : Type} {op : BinaryOp} (hand : op ≠ .and) (hor : op ≠ .or)
    (style : StyleMap) (lookup : Lookup σ) (lhs rhs : Expr) (span : Span) :
    (Expr.binary op lhs rhs span).eval style lookup =
      lhs.eval style lookup >>= fun a => rhs.eval style lookup >>= fun b =>
        Expr.eval.liftExcept (if Value.isComparison op then a.compare op b span
          else a.arithmetic op b rhs.span span) := by
  cases op <;> first | contradiction | rfl

section

variable {d : Document} {styled : Element → ResolvedStyle → Prop} {answer : Answers}
  (h : ∀ s p span v, answer s p span = .ok v ↔ d.Refers styled s p v)

include h

theorem eval_eq_ok_iff {e : Expr} {style : StyleMap} {v : Value} :
    outcome (e.eval style (stateless answer)) = .ok v ↔ e.Evaluates d styled style v := by
  induction e generalizing v with
  | number x unit span =>
    rw [Expr.eval, outcome_pure]
    constructor
    · rintro ⟨⟩
      exact .number
    · rintro ⟨⟩
      rfl
  | str text span =>
    rw [Expr.eval, outcome_pure]
    constructor
    · rintro ⟨⟩
      exact .str
    · rintro ⟨⟩
      rfl
  | bool b span =>
    rw [Expr.eval, outcome_pure]
    constructor
    · rintro ⟨⟩
      exact .bool
    · rintro ⟨⟩
      rfl
  | ident name span =>
    rw [Expr.eval]
    constructor
    · cases hname : style.get? name with
      | some text =>
        intro hv
        exact Except.ok.inj hv ▸ .declared hname
      | none =>
        rintro ⟨⟩
        exact .keyword hname
    · rintro (_ | _ | _ | hname | hname) <;> simp [hname]
  | reference selector property span =>
    rw [Expr.eval, stateless, outcome_lift, h]
    constructor
    · rintro ⟨e, r, text, he, hr, htext, hvalue⟩
      exact hvalue ▸ .reference he hr htext
    · intro hv
      cases hv with
      | reference he hr htext => exact ⟨_, _, _, he, hr, htext, rfl⟩
  | dynamic code span =>
    rw [Expr.eval, outcome_throw]
    constructor
    · rintro ⟨⟩
    · rintro ⟨⟩
  | unary op operand span ih =>
    simp only [Expr.eval, outcome_bind, bind_eq_ok_iff, ih]
    constructor
    · rintro ⟨a, ha, hv⟩
      cases op <;> cases a <;> cases hv
      · exact .not ha
      · exact .neg ha
    · intro hv
      cases hv with
      | not ha => exact ⟨_, ha, rfl⟩
      | neg ha => exact ⟨_, ha, rfl⟩
  | binary op lhs rhs span ihl ihr =>
    have hright : outcome (rhs.eval style (stateless answer) >>= fun right =>
        Expr.eval.liftExcept (right.truth rhs.span) >>= fun b => pure (Value.bool b)) = .ok v ↔
        ∃ b, rhs.Evaluates d styled style (.bool b) ∧ v = .bool b := by
      simp only [outcome_bind, outcome_lift, outcome_pure, bind_eq_ok_iff, ihr, truth_eq_ok_iff,
        Except.ok.injEq]
      constructor
      · rintro ⟨a, ha, b, rfl, rfl⟩
        exact ⟨b, ha, rfl⟩
      · rintro ⟨b, hb, rfl⟩
        exact ⟨_, hb, b, rfl, rfl⟩
    by_cases hand : op = .and
    · rw [hand, evaluates_and_iff, Expr.eval, outcome_bind, bind_eq_ok_iff]
      simp only [ihl, outcome_bind, outcome_lift, bind_eq_ok_iff, truth_eq_ok_iff]
      constructor
      · rintro ⟨a, ha, b, rfl, hv⟩
        refine ⟨b, ha, ?_⟩
        cases b
        · exact Except.ok.inj hv.symm
        · exact hright.mp hv
      · rintro ⟨b, ha, hv⟩
        refine ⟨_, ha, b, rfl, ?_⟩
        cases b
        · exact congrArg Except.ok hv.symm
        · exact hright.mpr hv
    by_cases hor : op = .or
    · rw [hor, evaluates_or_iff, Expr.eval, outcome_bind, bind_eq_ok_iff]
      simp only [ihl, outcome_bind, outcome_lift, bind_eq_ok_iff, truth_eq_ok_iff]
      constructor
      · rintro ⟨a, ha, b, rfl, hv⟩
        refine ⟨b, ha, ?_⟩
        cases b
        · exact hright.mp hv
        · exact Except.ok.inj hv.symm
      · rintro ⟨b, ha, hv⟩
        refine ⟨_, ha, b, rfl, ?_⟩
        cases b
        · exact hright.mpr hv
        · exact congrArg Except.ok hv.symm
    · rw [eval_binary hand hor, evaluates_binary_iff hand hor]
      simp only [outcome_bind, outcome_lift, bind_eq_ok_iff, ihl, ihr]
  | ternary cond yes no span ihc ihy ihn =>
    simp only [Expr.eval, outcome_bind, outcome_lift, bind_eq_ok_iff, ihc, truth_eq_ok_iff]
    constructor
    · rintro ⟨a, ha, b, rfl, hv⟩
      cases b with
      | true => exact .yes ha (ihy.mp hv)
      | false => exact .no ha (ihn.mp hv)
    · intro hv
      cases hv with
      | yes hc hy => exact ⟨_, hc, true, rfl, ihy.mpr hy⟩
      | no hc hn => exact ⟨_, hc, false, rfl, ihn.mpr hn⟩

theorem evalBool_eq_ok_iff {e : Expr} {style : StyleMap} {b : Bool} :
    outcome (e.evalBool style (stateless answer)) = .ok b ↔
      e.Evaluates d styled style (.bool b) := by
  simp only [Expr.evalBool, outcome_bind, outcome_lift, bind_eq_ok_iff, truth_eq_ok_iff,
    eval_eq_ok_iff h, exists_eq_right]

theorem staticText_eq_ok_iff {decl : StyleDeclaration} {style : StyleMap} {text : Option String} :
    outcome (decl.staticText (stateless answer) style) = .ok text ↔
      decl.Gives d styled style text := by
  obtain ⟨key, value, span⟩ := decl
  cases value with
  | literal t =>
    constructor
    · rintro ⟨⟩
      exact .literal
    · rintro ⟨⟩
      rfl
  | expr e =>
    simp only [StyleDeclaration.staticText, outcome_bind, outcome_pure, bind_eq_ok_iff,
      eval_eq_ok_iff h]
    constructor
    · rintro ⟨v, hv, ⟨⟩⟩
      exact .expr hv
    · rintro (_ | hv)
      exact ⟨_, hv, rfl⟩
  | responsive name unit =>
    constructor
    · rintro ⟨⟩
      exact .responsive
    · rintro ⟨⟩
      rfl

theorem staticStyle_eq_ok_iff {ds : List StyleDeclaration} {style after : StyleMap} :
    outcome (staticStyle (stateless answer) style ds) = .ok after ↔
      Declares d styled ds style after := by
  induction ds generalizing style with
  | nil =>
    constructor
    · rintro ⟨⟩
      exact .nil
    · rintro ⟨⟩
      rfl
  | cons decl ds ih =>
    simp only [staticStyle, outcome_bind, bind_eq_ok_iff, staticText_eq_ok_iff h]
    constructor
    · rintro ⟨text, htext, hrest⟩
      cases text with
      | some text => exact .set htext (ih.mp hrest)
      | none => exact .skip htext (ih.mp hrest)
    · rintro (_ | ⟨htext, hrest⟩ | ⟨htext, hrest⟩)
      · exact ⟨_, htext, ih.mpr hrest⟩
      · exact ⟨_, htext, ih.mpr hrest⟩

theorem applyBody_eq_ok_iff {ds : List StyleDeclaration} {layers after : Layers} :
    outcome (applyBody (stateless answer) layers ds) = .ok after ↔
      Assigns d styled ds layers after := by
  induction ds generalizing layers with
  | nil =>
    constructor
    · rintro ⟨⟩
      exact .nil
    · rintro ⟨⟩
      rfl
  | cons decl ds ih =>
    simp only [applyBody, outcome_bind, bind_eq_ok_iff, staticText_eq_ok_iff h]
    constructor
    · rintro ⟨text, htext, hrest⟩
      cases text with
      | some text => exact .set htext (ih.mp hrest)
      | none => exact .skip htext (ih.mp hrest)
    · rintro (_ | ⟨htext, hrest⟩ | ⟨htext, hrest⟩)
      · exact ⟨_, htext, ih.mpr hrest⟩
      · exact ⟨_, htext, ih.mpr hrest⟩

theorem fires_eq_ok_iff {b : Branch} {style : StyleMap} {holds : Bool} :
    outcome (b.fires (stateless answer) style) = .ok holds ↔ b.Decides d styled style holds := by
  obtain ⟨condition, body, children, span⟩ := b
  cases condition with
  | some c =>
    rw [Branch.fires, evalBool_eq_ok_iff h]
    constructor
    · exact .condition
    · rintro (hc | _)
      exact hc
  | none =>
    constructor
    · rintro ⟨⟩
      exact .otherwise
    · rintro ⟨⟩
      rfl

theorem applyBranches_eq_ok_iff {bs : List Branch} {layers after : Layers} {index : Nat}
    {fired : Option Nat} :
    outcome (applyBranches (stateless answer) layers index bs) = .ok (after, fired) ↔
      FirstFires d styled bs layers index after fired := by
  induction bs generalizing index with
  | nil =>
    constructor
    · rintro ⟨⟩
      exact .nil
    · rintro ⟨⟩
      rfl
  | cons b bs ih =>
    simp only [applyBranches, outcome_bind, bind_eq_ok_iff, fires_eq_ok_iff h]
    constructor
    · rintro ⟨holds, hb, hrest⟩
      cases holds with
      | true =>
        simp only [if_true, outcome_bind, bind_eq_ok_iff, applyBody_eq_ok_iff h] at hrest
        obtain ⟨middle, hbody, ⟨⟩⟩ := hrest
        exact .here hb hbody
      | false => exact .later hb (ih.mp hrest)
    · rintro (_ | ⟨hb, hbody⟩ | ⟨hb, hrest⟩)
      · refine ⟨true, hb, ?_⟩
        simp only [if_true, outcome_bind, bind_eq_ok_iff, applyBody_eq_ok_iff h]
        exact ⟨_, hbody, rfl⟩
      · exact ⟨false, hb, ih.mpr hrest⟩

theorem applyChains_eq_ok_iff {cs : List Chain} {layers after : Layers}
    {fired : List (Option Nat)} :
    outcome (applyChains (stateless answer) layers cs) = .ok (after, fired) ↔
      ChainsFire d styled cs layers after fired := by
  induction cs generalizing layers fired with
  | nil =>
    constructor
    · rintro ⟨⟩
      exact .nil
    · rintro ⟨⟩
      rfl
  | cons c cs ih =>
    rw [applyChains]
    cases hc : c.isDynamic with
    | true =>
      simp only [if_true, outcome_bind, bind_eq_ok_iff]
      constructor
      · rintro ⟨⟨middle, rest⟩, hrest, ⟨⟩⟩
        exact .dynamic hc (ih.mp hrest)
      · rintro (_ | ⟨-, hrest⟩ | ⟨hstatic, -, -⟩)
        · exact ⟨_, ih.mpr hrest, rfl⟩
        · simp [hc] at hstatic
    | false =>
      simp only [Bool.false_eq_true, if_false, outcome_bind, bind_eq_ok_iff]
      constructor
      · rintro ⟨⟨middle, first⟩, hfirst, ⟨last, rest⟩, hrest, ⟨⟩⟩
        exact .static hc ((applyBranches_eq_ok_iff h).mp hfirst) (ih.mp hrest)
      · rintro (_ | ⟨hdynamic, -⟩ | ⟨-, hfirst, hrest⟩)
        · simp [hc] at hdynamic
        · exact ⟨_, (applyBranches_eq_ok_iff h).mpr hfirst, _, ih.mpr hrest, rfl⟩

/-- The evaluator gives an element the style that the rules do. -/
theorem computeStyle_eq_ok_iff {e : Element} {r : ResolvedStyle} :
    outcome (e.computeStyle (stateless answer)) = .ok r ↔ e.Styled d styled r := by
  simp only [Element.computeStyle, outcome_bind, bind_eq_ok_iff, staticStyle_eq_ok_iff h]
  constructor
  · rintro ⟨style, hstyle, ⟨layers, fired⟩, hchains, ⟨⟩⟩
    exact ⟨style, layers, fired, hstyle, (applyChains_eq_ok_iff h).mp hchains, rfl⟩
  · rintro ⟨style, layers, fired, hstyle, hchains, rfl⟩
    exact ⟨style, hstyle, _, (applyChains_eq_ok_iff h).mpr hchains, rfl⟩

end

end Chtl
