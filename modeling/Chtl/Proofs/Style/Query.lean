import Chtl.Proofs.Outcome
import Chtl.Style.Resolve
import Mathlib.Tactic.Common

/-!
# What an evaluation asks

Evaluating, lowering and styling look at other elements in one way only: they ask for a property and
go on with the answer. So each of them is a tree of questions, whatever the state that looking up
keeps. What is known of the answers one by one is then known of the whole, by induction on the tree.
-/

set_option autoImplicit false
set_option linter.all false

namespace Chtl

/-- A computation that ends, fails, or asks for a property of another element and goes on. -/
inductive Query (α : Type) where
  | done (a : α)
  | fail (e : EvalError)
  | ask (selector : Selector) (property : String) (span : Span) (next : Value → Query α)

/-- Answers that do not depend on a state. -/
abbrev Answers := Selector → String → Span → Except EvalError Value

namespace Query

variable {σ α β : Type}

def run (lookup : Lookup σ) : Query α → Evaluation σ α
  | done a => pure a
  | fail e => throw e
  | ask selector property span next => do
    let v ← lookup selector property span
    run lookup (next v)

def eval (answer : Answers) : Query α → Except EvalError α
  | done a => .ok a
  | fail e => .error e
  | ask selector property span next =>
    match answer selector property span with
    | .ok v => eval answer (next v)
    | .error e => .error e

def bind : Query α → (α → Query β) → Query β
  | done a, f => f a
  | fail e, _ => fail e
  | ask selector property span next, f => ask selector property span fun v => (next v).bind f

theorem run_bind (lookup : Lookup σ) (q : Query α) (f : α → Query β) :
    (q.bind f).run lookup = q.run lookup >>= fun a => (f a).run lookup := by
  induction q with
  | done a => simp [bind, run]
  | fail e => rfl
  | ask selector property span next ih => simp [bind, run, ih]

theorem eval_ask_eq_ok_iff {answer : Answers} {selector : Selector} {property : String}
    {span : Span} {next : Value → Query α} {a : α} :
    (ask selector property span next).eval answer = .ok a ↔
      ∃ v, answer selector property span = .ok v ∧ (next v).eval answer = .ok a := by
  rw [eval]
  cases answer selector property span <;> simp

/-- More answers do not change a result. -/
theorem eval_mono {answer more : Answers}
    (h : ∀ s p span v, answer s p span = .ok v → more s p span = .ok v) {q : Query α} {a : α}
    (hq : q.eval answer = .ok a) : q.eval more = .ok a := by
  induction q with
  | done b => exact hq
  | fail e => exact hq
  | ask selector property span next ih =>
    obtain ⟨v, hv, hnext⟩ := eval_ask_eq_ok_iff.mp hq
    exact eval_ask_eq_ok_iff.mpr ⟨v, h _ _ _ v hv, ih v hnext⟩

/-- Two lookups that agree on the states that questions lead through run alike. -/
theorem run_congr {lookup other : Lookup σ} (along : σ → Prop)
    (h : ∀ s p span m, along m → (lookup s p span).run.run m = (other s p span).run.run m ∧
      along ((lookup s p span).run.run m).2)
    (q : Query α) {m : σ} (hm : along m) :
    (q.run lookup).run.run m = (q.run other).run.run m ∧ along ((q.run lookup).run.run m).2 := by
  induction q generalizing m with
  | done a => exact ⟨rfl, hm⟩
  | fail e => exact ⟨rfl, hm⟩
  | ask selector property span next ih =>
    obtain ⟨heq, halong⟩ := h selector property span m hm
    rw [run, run]
    cases hrun : (lookup selector property span).run.run m with
    | mk result m' =>
      have hother := heq ▸ hrun
      rw [hrun] at halong
      cases result with
      | ok v =>
        rw [run_bind_ok hrun, run_bind_ok hother]
        exact ih v halong
      | error e =>
        rw [run_bind_error hrun, run_bind_error hother]
        exact ⟨rfl, halong⟩

end Query

/-- Answers of growing depth, of which none is taken back. -/
def Rising (level : Nat → Answers) : Prop :=
  ∀ m n, m ≤ n → ∀ s p span v, level m s p span = .ok v → level n s p span = .ok v

namespace Rising

variable {σ α : Type} {level : Nat → Answers}

theorem agree (h : Rising level) {m n : Nat} {s : Selector} {p : String} {span : Span}
    {v w : Value} (hv : level m s p span = .ok v) (hw : level n s p span = .ok w) : v = w := by
  rcases Nat.le_total m n with hle | hle
  · have := h m n hle s p span v hv
    simpa [this] using hw
  · have := h n m hle s p span w hw
    simpa [this] using hv.symm

/-- What the levels answer together, one of them answers alone. -/
theorem eval_some_level (h : Rising level) {limit : Answers}
    (hlimit : ∀ s p span v, limit s p span = .ok v → ∃ n, level n s p span = .ok v) {q : Query α}
    {a : α} (hq : q.eval limit = .ok a) : ∃ n, q.eval (level n) = .ok a := by
  induction q with
  | done b => exact ⟨0, hq⟩
  | fail e => exact ⟨0, hq⟩
  | ask selector property span next ih =>
    obtain ⟨v, hv, hnext⟩ := Query.eval_ask_eq_ok_iff.mp hq
    obtain ⟨m, hm⟩ := hlimit _ _ _ v hv
    obtain ⟨n, hn⟩ := ih v hnext
    refine ⟨max m n, Query.eval_ask_eq_ok_iff.mpr ⟨v, h m _ (Nat.le_max_left m n) _ _ _ v hm, ?_⟩⟩
    exact Query.eval_mono (h n _ (Nat.le_max_right m n)) hn

/-- The levels in a set all answer a question, and they agree on what follows. -/
theorem ask_levels (h : Rising level) {member : Nat → Prop} {selector : Selector}
    {property : String} {span : Span} {next : Value → Query α}
    (hq : ∀ n, member n → ∃ a, (Query.ask selector property span next).eval (level n) = .ok a) :
    (∀ n, member n → ∃ v, level n selector property span = .ok v) ∧
      ∀ k v, level k selector property span = .ok v →
        ∀ n, member n → ∃ a, (next v).eval (level n) = .ok a := by
  constructor
  · intro n hn
    obtain ⟨a, ha⟩ := hq n hn
    obtain ⟨v, hv, -⟩ := Query.eval_ask_eq_ok_iff.mp ha
    exact ⟨v, hv⟩
  · intro k v hk n hn
    obtain ⟨a, ha⟩ := hq n hn
    obtain ⟨w, hw, hnext⟩ := Query.eval_ask_eq_ok_iff.mp ha
    rw [h.agree hk hw]
    exact ⟨a, hnext⟩

/-- Answers that are right wherever all levels of a set have one give the result of a level. -/
theorem eval_follow (h : Rising level) (member : Nat → Prop) {answer : Answers} (k : Nat)
    (hstep : ∀ s p span v, (∀ n, member n → ∃ w, level n s p span = .ok w) →
      level k s p span = .ok v → answer s p span = .ok v)
    {q : Query α} {a : α} (hq : ∀ n, member n → ∃ a, q.eval (level n) = .ok a)
    (hk : q.eval (level k) = .ok a) : q.eval answer = .ok a := by
  induction q with
  | done b => exact hk
  | fail e => exact hk
  | ask selector property span next ih =>
    obtain ⟨v, hv, hnext⟩ := Query.eval_ask_eq_ok_iff.mp hk
    obtain ⟨hall, hmore⟩ := h.ask_levels hq
    exact Query.eval_ask_eq_ok_iff.mpr ⟨v, hstep _ _ _ v hall hv, ih v (hmore k v hv) hnext⟩

/-- A lookup with a state that gives the right answers, wherever all levels of a set have one, runs
as these answers do. -/
theorem run_follow (h : Rising level) (member : Nat → Prop) {answer : Answers} {lookup : Lookup σ}
    {along : σ → Prop}
    (hstep : ∀ s p span, (∀ n, member n → ∃ w, level n s p span = .ok w) → ∀ m, along m →
      ∃ m', (lookup s p span).run.run m = (answer s p span, m') ∧ along m')
    (htrue : ∀ s p span v, answer s p span = .ok v → ∃ n, level n s p span = .ok v)
    {q : Query α} (hq : ∀ n, member n → ∃ a, q.eval (level n) = .ok a) {m : σ} (hm : along m) :
    ∃ m', (q.run lookup).run.run m = (q.eval answer, m') ∧ along m' := by
  induction q generalizing m with
  | done b => exact ⟨m, rfl, hm⟩
  | fail e => exact ⟨m, rfl, hm⟩
  | ask selector property span next ih =>
    obtain ⟨hall, hmore⟩ := h.ask_levels hq
    obtain ⟨m', hrun, hm'⟩ := hstep selector property span hall m hm
    rw [Query.run, Query.eval]
    cases hanswer : answer selector property span with
    | ok v =>
      rw [hanswer] at hrun
      obtain ⟨n, hn⟩ := htrue _ _ _ v hanswer
      rw [run_bind_ok hrun]
      exact ih v (hmore n v hn) hm'
    | error e =>
      rw [hanswer] at hrun
      exact ⟨m', run_bind_error hrun, hm'⟩

end Rising

section

variable {α β : Type}

/-- Whether a computation over any lookup is one tree of questions. -/
def Asking (x : (σ : Type) → Lookup σ → Evaluation σ α) : Prop :=
  ∃ q : Query α, ∀ σ (lookup : Lookup σ), x σ lookup = q.run lookup

namespace Asking

theorem pure (a : α) : Asking fun _ _ => Pure.pure a := ⟨.done a, fun _ _ => rfl⟩

theorem throw (e : EvalError) : Asking fun σ _ => (MonadExcept.throw e : Evaluation σ α) :=
  ⟨.fail e, fun _ _ => rfl⟩

theorem lookup (selector : Selector) (property : String) (span : Span) :
    Asking fun _ lookup => lookup selector property span :=
  ⟨.ask selector property span .done, fun _ _ => by simp [Query.run]⟩

theorem bind {x : (σ : Type) → Lookup σ → Evaluation σ α}
    {f : α → (σ : Type) → Lookup σ → Evaluation σ β} (hx : Asking x) (hf : ∀ a, Asking (f a)) :
    Asking fun σ lookup => x σ lookup >>= fun a => f a σ lookup := by
  obtain ⟨q, hq⟩ := hx
  choose g hg using hf
  refine ⟨q.bind g, fun σ lookup => ?_⟩
  simp only [Query.run_bind, hq, hg]

theorem lift (x : Except EvalError α) : Asking fun _ _ => Expr.eval.liftExcept x := by
  cases x with
  | ok a => exact pure a
  | error e => exact throw e

end Asking

end

theorem asking_eval (style : StyleMap) (e : Expr) : Asking fun _ lookup => e.eval style lookup := by
  induction e with
  | number | str | bool => exact .pure _
  | ident name span =>
    simp only [Expr.eval]
    split
    · exact .pure _
    · exact .pure _
  | reference selector property span => exact .lookup selector property span
  | dynamic code span => exact .throw _
  | unary op operand span ih =>
    simp only [Expr.eval]
    refine ih.bind fun v => ?_
    cases op <;> cases v <;> first | exact .pure _ | exact .throw _
  | binary op lhs rhs span ihl ihr =>
    simp only [Expr.eval]
    refine ihl.bind fun left => ?_
    have hright : Asking fun _ lookup => rhs.eval style lookup >>= fun right =>
        Expr.eval.liftExcept (right.truth rhs.span) >>= fun b => pure (Value.bool b) :=
      ihr.bind fun right => (Asking.lift _).bind fun b => .pure _
    -- Only the two connectives may leave their right operand alone.
    cases op
    case and =>
      refine (Asking.lift _).bind fun a => ?_
      cases a
      · exact .pure _
      · exact hright
    case or =>
      refine (Asking.lift _).bind fun a => ?_
      cases a
      · exact hright
      · exact .pure _
    all_goals exact ihr.bind fun right => .lift _
  | ternary cond yes no span ihc ihy ihn =>
    simp only [Expr.eval]
    refine ihc.bind fun c => (Asking.lift _).bind fun b => ?_
    cases b
    · exact ihn
    · exact ihy

theorem asking_lower (style : StyleMap) (e : Expr) :
    Asking fun _ lookup => e.lower style lookup := by
  induction e with
  | number | str | bool | dynamic => exact .pure _
  | ident name span =>
    simp only [Expr.lower]
    exact (asking_eval style (.ident name span)).bind fun v => .pure _
  | reference selector property span =>
    simp only [Expr.lower]
    exact (asking_eval style (.reference selector property span)).bind fun v => .pure _
  | unary op operand span ih =>
    simp only [Expr.lower]
    exact ih.bind fun js => .pure _
  | binary op lhs rhs span ihl ihr =>
    simp only [Expr.lower]
    exact ihl.bind fun left => ihr.bind fun right => .pure _
  | ternary cond yes no span ihc ihy ihn =>
    simp only [Expr.lower]
    exact ihc.bind fun c => ihy.bind fun y => ihn.bind fun n => .pure _

theorem asking_staticText (style : StyleMap) (d : StyleDeclaration) :
    Asking fun _ lookup => d.staticText lookup style := by
  unfold StyleDeclaration.staticText
  split
  · exact .pure _
  · exact (asking_eval style _).bind fun v => .pure _
  · exact .pure _

theorem asking_staticStyle (style : StyleMap) (ds : List StyleDeclaration) :
    Asking fun _ lookup => staticStyle lookup style ds := by
  induction ds generalizing style with
  | nil => exact .pure _
  | cons d ds ih =>
    simp only [staticStyle]
    refine (asking_staticText style d).bind fun text => ?_
    cases text with
    | none => exact ih style
    | some text => exact ih (style.set d.key text)

theorem asking_applyBody (layers : Layers) (ds : List StyleDeclaration) :
    Asking fun _ lookup => applyBody lookup layers ds := by
  induction ds generalizing layers with
  | nil => exact .pure _
  | cons d ds ih =>
    simp only [applyBody]
    refine (asking_staticText layers.style d).bind fun text => ?_
    cases text with
    | none => exact ih layers
    | some text => exact ih (layers.assign d.key text)

theorem asking_fires (style : StyleMap) (b : Branch) :
    Asking fun _ lookup => b.fires lookup style := by
  unfold Branch.fires
  split
  · exact (asking_eval style _).bind fun v => .lift _
  · exact .pure _

theorem asking_applyBranches (layers : Layers) (index : Nat) (bs : List Branch) :
    Asking fun _ lookup => applyBranches lookup layers index bs := by
  induction bs generalizing index with
  | nil => exact .pure _
  | cons b bs ih =>
    simp only [applyBranches]
    refine (asking_fires layers.style b).bind fun fires => ?_
    cases fires with
    | false => exact ih (index + 1)
    | true => exact (asking_applyBody layers b.body).bind fun after => .pure _

theorem asking_applyChains (layers : Layers) (cs : List Chain) :
    Asking fun _ lookup => applyChains lookup layers cs := by
  induction cs generalizing layers with
  | nil => exact .pure _
  | cons c cs ih =>
    simp only [applyChains]
    cases c.isDynamic with
    | true => exact (ih layers).bind fun rest => .pure _
    | false =>
      exact (asking_applyBranches layers 0 c.branches).bind fun first =>
        (ih first.1).bind fun rest => .pure _

theorem asking_computeStyle (e : Element) : Asking fun _ lookup => e.computeStyle lookup := by
  unfold Element.computeStyle
  exact (asking_staticStyle {} e.style).bind fun style =>
    (asking_applyChains { style := style } e.chains).bind fun rest => .pure _

end Chtl
