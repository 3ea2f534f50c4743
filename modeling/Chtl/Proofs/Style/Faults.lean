import Chtl.Proofs.Document.Built
import Chtl.Proofs.Expr.Spans
import Chtl.Proofs.Style.Guard

/-!
# Where evaluation fails

A fault of an evaluation has the span of an expression that was evaluated, or that of an element
whose style was asked for. The theorems follow the evaluators one by one.
-/

set_option autoImplicit false
set_option linter.all false

namespace Chtl

/-- Every fault has such a span. -/
def Blames {σ α : Type} (spans : Span → Prop) (x : Evaluation σ α) : Prop :=
  ∀ s e s', x.run.run s = (.error e, s') → spans e.span

/-- What an element asks for is evaluated at such spans. -/
structure Element.Evaluated (spans : Span → Prop) (e : Element) : Prop where
  span : spans e.span
  style : ∀ d ∈ e.style, d.Holds (·.All spans)
  chains : ∀ c ∈ e.chains, ∀ b ∈ c.branches, b.Holds (·.All spans)

section

variable {σ α β : Type} {spans : Span → Prop} {x : Evaluation σ α} {f : α → Evaluation σ β}

namespace Blames

theorem pure (a : α) : Blames (σ := σ) spans (Pure.pure a) := by
  rintro s e s' ⟨⟩

theorem throw {e : EvalError} (h : spans e.span) :
    Blames (σ := σ) (α := α) spans (MonadExcept.throw e) := by
  rintro s _ s' ⟨⟩
  exact h

theorem bind (hx : Blames spans x) (hf : ∀ a, Blames spans (f a)) : Blames spans (x >>= f) := by
  intro s e s' hrun
  cases hfirst : x.run.run s with
  | mk result middle =>
    cases result with
    | ok a =>
      rw [run_bind_ok hfirst] at hrun
      exact hf a middle e s' hrun
    | error e' =>
      rw [run_bind_error hfirst] at hrun
      cases hrun
      exact hx s e _ hfirst

theorem modify (g : σ → σ) : Blames spans (MonadStateOf.modifyGet fun s => ((), g s) : Evaluation σ Unit) := by
  rintro s e s' ⟨⟩

theorem get : Blames spans (MonadState.get : Evaluation σ σ) := by
  rintro s e s' ⟨⟩

theorem ite {c : Prop} [Decidable c] {y : Evaluation σ α} (hx : c → Blames spans x)
    (hy : ¬ c → Blames spans y) : Blames spans (if c then x else y) := by
  split_ifs with hc
  · exact hx hc
  · exact hy hc

theorem liftExcept {r : Except EvalError α} (h : ∀ e, r = .error e → spans e.span) :
    Blames (σ := σ) spans (Expr.eval.liftExcept r) := by
  cases r with
  | ok a => exact .pure a
  | error e => exact .throw (h e rfl)

end Blames

/-! ## Expressions -/

namespace Value

theorem span_of_truth {v : Value} {s : Span} {e : EvalError} (h : v.truth s = .error e) :
    e.span = s := by
  unfold truth at h
  split at h <;> cases h
  rfl

theorem span_of_compare {op : BinaryOp} {left right : Value} {s : Span} {e : EvalError}
    (h : left.compare op right s = .error e) : e.span = s := by
  unfold compare at h
  split at h
  all_goals try split at h
  all_goals cases h
  all_goals rfl

theorem span_of_arithmetic {op : BinaryOp} {left right : Value} {divisor s : Span} {e : EvalError}
    (h : left.arithmetic op right divisor s = .error e) : e.span = divisor ∨ e.span = s := by
  unfold arithmetic at h
  split at h
  · dsimp only at h
    split at h
    all_goals split_ifs at h
    all_goals cases h
    all_goals first | exact .inl rfl | exact .inr rfl
  · cases h
    exact .inr rfl
  · cases h
    exact .inr rfl

end Value

variable {style : StyleMap} {lookup : Lookup σ}

/-- Looking up fails at the span of the reference, or at others of the kind. -/
def Lookup.Blames (spans : Span → Prop) (lookup : Lookup σ) : Prop :=
  ∀ selector property span, spans span → Chtl.Blames spans (lookup selector property span)

theorem Expr.blames_eval (hlookup : lookup.Blames spans) {e : Expr} (he : e.All spans) :
    Blames spans (e.eval style lookup) := by
  induction e with
  | number | str | bool => exact .pure _
  | ident name span =>
    rw [eval]
    split <;> exact .pure _
  | reference selector property span => exact hlookup selector property span he
  | dynamic code span => exact .throw he
  | unary op operand span ih =>
    rw [eval]
    refine (ih he.2).bind fun v => ?_
    split
    · exact .pure _
    · exact .pure _
    · exact .throw he.2.root
    · exact .throw he.2.root
  | binary op lhs rhs span ihl ihr =>
    obtain ⟨hspan, hlhs, hrhs⟩ := he
    have htruth (v : Value) {s : Span} (hs : spans s) :
        Blames (σ := σ) spans (eval.liftExcept (v.truth s)) :=
      .liftExcept fun e h => Value.span_of_truth h ▸ hs
    rw [eval]
    refine (ihl hlhs).bind fun left => ?_
    split
    · refine (htruth left hlhs.root).bind fun a => .ite (fun _ => ?_) fun _ => .pure _
      exact (ihr hrhs).bind fun right => (htruth right hrhs.root).bind fun b => .pure _
    · refine (htruth left hlhs.root).bind fun a => .ite (fun _ => .pure _) fun _ => ?_
      exact (ihr hrhs).bind fun right => (htruth right hrhs.root).bind fun b => .pure _
    · refine (ihr hrhs).bind fun right => .ite (fun _ => ?_) fun _ => ?_
      · exact .liftExcept fun e h => Value.span_of_compare h ▸ hspan
      · refine .liftExcept fun e h => ?_
        rcases Value.span_of_arithmetic h with heq | heq
        · exact heq ▸ hrhs.root
        · exact heq ▸ hspan
  | ternary cond yes no span ihc ihy ihn =>
    obtain ⟨-, hcond, hyes, hno⟩ := he
    rw [eval]
    refine (ihc hcond).bind fun c => ?_
    refine Blames.bind (.liftExcept fun e h => Value.span_of_truth h ▸ hcond.root) fun b => ?_
    exact .ite (fun _ => ihy hyes) fun _ => ihn hno

theorem Expr.blames_lower (hlookup : lookup.Blames spans) {e : Expr} (he : e.All spans) :
    Blames spans (e.lower style lookup) := by
  induction e with
  | number | str | bool | dynamic => exact .pure _
  | ident | reference =>
    rw [lower]
    exact (blames_eval hlookup he).bind fun v => .pure _
  | unary op operand span ih =>
    rw [lower]
    exact (ih he.2).bind fun js => .pure _
  | binary op lhs rhs span ihl ihr =>
    rw [lower]
    exact (ihl he.2.1).bind fun left => (ihr he.2.2).bind fun right => .pure _
  | ternary cond yes no span ihc ihy ihn =>
    rw [lower]
    exact (ihc he.2.1).bind fun c => (ihy he.2.2.1).bind fun y => (ihn he.2.2.2).bind fun n =>
      .pure _

/-! ## Styles -/

theorem StyleDeclaration.blames_staticText (hlookup : lookup.Blames spans) {d : StyleDeclaration}
    (hd : d.Holds (·.All spans)) : Blames spans (d.staticText lookup style) := by
  unfold staticText
  split
  · exact .pure _
  · rename_i e hvalue
    exact (e.blames_eval hlookup (hd e hvalue)).bind fun v => .pure _
  · exact .pure _

theorem blames_staticStyle (hlookup : lookup.Blames spans) {ds : List StyleDeclaration}
    (hds : ∀ d ∈ ds, d.Holds (·.All spans)) : Blames spans (staticStyle lookup style ds) := by
  induction ds generalizing style with
  | nil => exact .pure _
  | cons d ds ih =>
    obtain ⟨hd, hrest⟩ := List.forall_mem_cons.mp hds
    rw [staticStyle]
    refine (d.blames_staticText hlookup hd).bind fun text => ?_
    cases text with
    | none => exact ih hrest
    | some text => exact ih hrest

theorem blames_applyBody (hlookup : lookup.Blames spans) {ds : List StyleDeclaration}
    (hds : ∀ d ∈ ds, d.Holds (·.All spans)) (layers : Layers) :
    Blames spans (applyBody lookup layers ds) := by
  induction ds generalizing layers with
  | nil => exact .pure _
  | cons d ds ih =>
    obtain ⟨hd, hrest⟩ := List.forall_mem_cons.mp hds
    rw [applyBody]
    refine (d.blames_staticText hlookup hd).bind fun text => ?_
    cases text with
    | none => exact ih hrest layers
    | some text => exact ih hrest _

theorem Branch.blames_fires (hlookup : lookup.Blames spans) {b : Branch}
    (hb : b.Holds (·.All spans)) : Blames spans (b.fires lookup style) := by
  unfold fires
  split
  · rename_i c hc
    have hexpr := hb.condition c hc
    exact (c.expr.blames_eval hlookup hexpr).bind fun v =>
      .liftExcept fun e h => Value.span_of_truth h ▸ hexpr.root
  · exact .pure _

theorem blames_applyBranches (hlookup : lookup.Blames spans) (layers : Layers) (index : Nat)
    {bs : List Branch} (hbs : ∀ b ∈ bs, b.Holds (·.All spans)) :
    Blames spans (applyBranches lookup layers index bs) := by
  induction bs generalizing index with
  | nil => exact .pure _
  | cons b bs ih =>
    obtain ⟨hb, hrest⟩ := List.forall_mem_cons.mp hbs
    rw [applyBranches]
    refine (b.blames_fires hlookup hb).bind fun fires => .ite (fun _ => ?_) fun _ => ih _ hrest
    exact (blames_applyBody hlookup hb.body layers).bind fun _ => .pure _

theorem blames_applyChains (hlookup : lookup.Blames spans) (layers : Layers) {cs : List Chain}
    (hcs : ∀ c ∈ cs, ∀ b ∈ c.branches, b.Holds (·.All spans)) :
    Blames spans (applyChains lookup layers cs) := by
  induction cs generalizing layers with
  | nil => exact .pure _
  | cons c cs ih =>
    obtain ⟨hc, hrest⟩ := List.forall_mem_cons.mp hcs
    rw [applyChains]
    refine .ite (fun _ => (ih layers hrest).bind fun _ => .pure _) fun _ => ?_
    exact (blames_applyBranches hlookup layers 0 hc).bind fun r =>
      (ih r.1 hrest).bind fun _ => .pure _

theorem Element.blames_computeStyle (hlookup : lookup.Blames spans) {e : Element}
    (he : e.Evaluated spans) : Blames spans (e.computeStyle lookup) :=
  (blames_staticStyle hlookup he.style).bind fun _ =>
    (blames_applyChains hlookup _ he.chains).bind fun _ => .pure _

end

/-! ## Documents -/

section

variable {σ : Type} {spans : Span → Prop} {d : Document}

theorem Document.blames_lookupVia {resolve : Element → Span → Evaluation σ ResolvedStyle}
    (hresolve : ∀ e ∈ d.elements, ∀ span, spans span → Blames spans (resolve e span)) :
    (d.lookupVia resolve).Blames spans := by
  intro selector property span hspan
  unfold lookupVia
  dsimp only
  split
  · exact .throw hspan
  · rename_i e hfind
    refine (hresolve e (mem_elements_of_find? hfind) span hspan).bind fun resolved => ?_
    split
    · exact .pure _
    · exact .throw hspan

theorem blames_onPath {α : Type} {nodeId : Nat} {body : Evaluation Memo α}
    (h : Blames spans body) : Blames spans (onPath nodeId body) := by
  intro m e m' hrun
  rw [run_onPath] at hrun
  cases hbody : body.run.run { m with inProgress := nodeId :: m.inProgress } with
  | mk result after =>
    rw [hbody] at hrun
    cases hrun
    exact h _ e after hbody

theorem Document.blames_resolveFrom (hd : ∀ e ∈ d.elements, e.Evaluated spans) (depth : Nat)
    {e : Element} (he : e.Evaluated spans) {span : Span} (hspan : spans span) :
    Blames spans (d.resolveFrom depth e span) := by
  induction depth generalizing e span with
  | zero => exact .throw hspan
  | succ depth ih =>
    have hlookup : (d.lookupVia (d.resolveFrom depth)).Blames spans :=
      d.blames_lookupVia fun e he span hspan => ih (hd e he) hspan
    rw [resolveFrom]
    refine Blames.get.bind fun memo => ?_
    split
    · exact .pure _
    · refine .ite (fun _ => .throw hspan) fun _ => ?_
      refine (blames_onPath (e.blames_computeStyle hlookup he)).bind fun resolved => ?_
      exact (Blames.modify _).bind fun _ => .pure _

theorem Resolver.blames_lookup (r : Resolver)
    (hd : ∀ e ∈ r.document.elements, e.Evaluated spans) : r.lookup.Blames spans :=
  r.document.blames_lookupVia fun e he _ hspan =>
    r.document.blames_resolveFrom hd r.depth (hd e he) hspan

end

end Chtl
