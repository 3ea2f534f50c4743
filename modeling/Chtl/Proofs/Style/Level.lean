import Chtl.Proofs.Style.Evaluation
import Mathlib.Logic.Relation

/-!
# Derivations by depth

References in a derivation nest to some depth. The evaluator with a bound on the depth finds the
styles that are derivable within it, a style once found stays with more depth, and every derivable
style is found at some depth. An element that is asked for on the way to a style has its own style
at a smaller depth, so a circle of such elements has none.
-/

set_option autoImplicit false
set_option linter.all false

namespace Chtl

theorem Query.outcome_run {α : Type} (answer : Answers) (q : Query α) :
    outcome (q.run (stateless answer)) = q.eval answer := by
  induction q with
  | done a => rfl
  | fail e => rfl
  | ask selector property span next ih =>
    rw [run, outcome_bind, stateless, outcome_lift, eval]
    cases answer selector property span with
    | ok v => exact ih v
    | error e => rfl

/-- The style of an element under answers to its references. -/
def Element.styleUnder (e : Element) (answer : Answers) : Except EvalError ResolvedStyle :=
  outcome (e.computeStyle (stateless answer))

/-- The tree of questions that an element's style is found by. -/
def Element.StyledBy (e : Element) (q : Query ResolvedStyle) : Prop :=
  ∀ σ (lookup : Lookup σ), e.computeStyle lookup = q.run lookup

theorem Element.StyledBy.styleUnder_eq {e : Element} {q : Query ResolvedStyle} (h : e.StyledBy q)
    (answer : Answers) : e.styleUnder answer = q.eval answer := by
  rw [Element.styleUnder, h, Query.outcome_run]

theorem Element.exists_styledBy (e : Element) : ∃ q, e.StyledBy q := asking_computeStyle e

theorem Element.styleUnder_mono {e : Element} {answer more : Answers}
    (h : ∀ s p span v, answer s p span = .ok v → more s p span = .ok v) {r : ResolvedStyle}
    (hr : e.styleUnder answer = .ok r) : e.styleUnder more = .ok r := by
  obtain ⟨q, hq⟩ := e.exists_styledBy
  rw [hq.styleUnder_eq] at hr ⊢
  exact Query.eval_mono h hr

namespace Document

/-- The answers that come from resolving the element asked for. -/
def answersVia (d : Document) (resolve : Element → Span → Except EvalError ResolvedStyle) :
    Answers := fun selector property span =>
  let missing := EvalError.unresolvedReference (referenceText selector property) span
  match d.find? selector with
  | none => .error missing
  | some e => resolve e span >>= fun r =>
    match r.style.get? property with
    | some text => .ok (.ofCss text)
    | none => .error missing

variable {d : Document}

theorem answersVia_eq_ok_iff {resolve : Element → Span → Except EvalError ResolvedStyle}
    {s : Selector} {p : String} {span : Span} {v : Value} :
    d.answersVia resolve s p span = .ok v ↔
      ∃ e r text, d.find? s = some e ∧ resolve e span = .ok r ∧ r.style.get? p = some text ∧
        v = .ofCss text := by
  unfold answersVia
  cases hfind : d.find? s with
  | none => simp
  | some e =>
    rw [bind_eq_ok_iff]
    constructor
    · rintro ⟨r, hr, hv⟩
      cases htext : r.style.get? p with
      | none => simp [htext] at hv
      | some text =>
        rw [htext] at hv
        exact ⟨e, r, text, rfl, hr, htext, (Except.ok.inj hv).symm⟩
    · rintro ⟨e', r, text, he, hr, htext, hvalue⟩
      cases he
      exact ⟨r, hr, by rw [htext, hvalue]⟩

/-- A lookup answers as resolving without a state does, if resolving the element does. -/
theorem run_lookupVia {σ : Type} {resolve : Element → Span → Evaluation σ ResolvedStyle}
    {plain : Element → Span → Except EvalError ResolvedStyle} {along : σ → Prop} {s : Selector}
    {p : String} {span : Span} {m : σ} (hm : along m)
    (h : ∀ e, d.find? s = some e →
      ∃ m', (resolve e span).run.run m = (plain e span, m') ∧ along m') :
    ∃ m', (d.lookupVia resolve s p span).run.run m = (d.answersVia plain s p span, m') ∧
      along m' := by
  unfold lookupVia answersVia
  cases hfind : d.find? s with
  | none => exact ⟨m, rfl, hm⟩
  | some e =>
    obtain ⟨m', hrun, hm'⟩ := h e hfind
    refine ⟨m', ?_, hm'⟩
    dsimp only
    cases hplain : plain e span with
    | error fault =>
      rw [hplain] at hrun
      rw [run_bind_error hrun]
      rfl
    | ok r =>
      rw [hplain] at hrun
      rw [run_bind_ok hrun]
      cases htext : r.style.get? p <;> simp only [bind, Except.bind, htext] <;> rfl

theorem run_lookupVia_congr {σ : Type} {resolve other : Element → Span → Evaluation σ ResolvedStyle}
    (along : σ → Prop) {s : Selector} {p : String} {span : Span} {m : σ} (hm : along m)
    (h : ∀ e, d.find? s = some e → (resolve e span).run.run m = (other e span).run.run m ∧
      along ((resolve e span).run.run m).2) :
    (d.lookupVia resolve s p span).run.run m = (d.lookupVia other s p span).run.run m ∧
      along ((d.lookupVia resolve s p span).run.run m).2 := by
  unfold lookupVia
  cases hfind : d.find? s with
  | none => exact ⟨rfl, hm⟩
  | some e =>
    obtain ⟨heq, halong⟩ := h e hfind
    dsimp only
    cases hrun : (resolve e span).run.run m with
    | mk result after =>
      have hother := heq ▸ hrun
      rw [hrun] at halong
      cases result with
      | error fault =>
        rw [run_bind_error hrun, run_bind_error hother]
        exact ⟨rfl, halong⟩
      | ok r =>
        rw [run_bind_ok hrun, run_bind_ok hother]
        refine ⟨rfl, ?_⟩
        cases r.style.get? p <;> exact halong

/-- The style of an element by references that nest less deep than a bound. -/
def styleWithin (d : Document) : (depth : Nat) → Element → Except EvalError ResolvedStyle
  | 0, e => .error (.circularReference e.describe e.span)
  | depth + 1, e => e.styleUnder (d.answersVia fun e _ => d.styleWithin depth e)

def level (d : Document) (n : Nat) : Answers := d.answersVia fun e _ => d.styleWithin n e

theorem styleWithin_succ (n : Nat) (e : Element) :
    d.styleWithin (n + 1) e = e.styleUnder (d.level n) := rfl

theorem answersVia_mono {resolve more : Element → Span → Except EvalError ResolvedStyle}
    (h : ∀ e span r, resolve e span = .ok r → more e span = .ok r) (s : Selector) (p : String)
    (span : Span) (v : Value) (hv : d.answersVia resolve s p span = .ok v) :
    d.answersVia more s p span = .ok v := by
  obtain ⟨e, r, text, he, hr, hvalue⟩ := answersVia_eq_ok_iff.mp hv
  exact answersVia_eq_ok_iff.mpr ⟨e, r, text, he, h e span r hr, hvalue⟩

theorem styleWithin_step {n : Nat} {e : Element} {r : ResolvedStyle}
    (h : d.styleWithin n e = .ok r) : d.styleWithin (n + 1) e = .ok r := by
  induction n generalizing e r with
  | zero => cases h
  | succ n ih =>
    rw [styleWithin_succ] at h ⊢
    exact Element.styleUnder_mono (answersVia_mono fun e _ r => ih) h

theorem styleWithin_mono {m n : Nat} (hle : m ≤ n) {e : Element} {r : ResolvedStyle}
    (h : d.styleWithin m e = .ok r) : d.styleWithin n e = .ok r := by
  induction hle with
  | refl => exact h
  | step _ ih => exact styleWithin_step ih

theorem rising_level (d : Document) : Rising d.level := fun _ _ hle =>
  answersVia_mono fun _ _ _ => styleWithin_mono hle

theorem styleWithin_unique {m n : Nat} {e : Element} {r r' : ResolvedStyle}
    (h : d.styleWithin m e = .ok r) (h' : d.styleWithin n e = .ok r') : r = r' := by
  have hmax := styleWithin_mono (Nat.le_max_left m n) h
  rw [styleWithin_mono (Nat.le_max_right m n) h'] at hmax
  exact (Except.ok.inj hmax).symm

theorem level_eq_ok_iff {n : Nat} {s : Selector} {p : String} {span : Span} {v : Value} :
    d.level n s p span = .ok v ↔ d.Refers (fun e r => d.styleWithin n e = .ok r) s p v := by
  rw [level, answersVia_eq_ok_iff]
  simp only [Refers, find?_eq_find?_elements]

/-- The answers that styles give, where elements have one style each. -/
noncomputable def answersFrom (d : Document) (styled : Element → ResolvedStyle → Prop) : Answers :=
  fun s p span =>
    open Classical in
    if h : ∃ v, d.Refers styled s p v then .ok h.choose
    else .error (.unresolvedReference (referenceText s p) span)

theorem answersFrom_eq_ok_iff {styled : Element → ResolvedStyle → Prop}
    (hunique : ∀ e r r', styled e r → styled e r' → r = r') (s : Selector) (p : String)
    (span : Span) (v : Value) :
    d.answersFrom styled s p span = .ok v ↔ d.Refers styled s p v := by
  have hone (v w : Value) (hv : d.Refers styled s p v) (hw : d.Refers styled s p w) : v = w := by
    obtain ⟨e, r, text, he, hr, htext, hvalue⟩ := hv
    obtain ⟨e', r', text', he', hr', htext', hvalue'⟩ := hw
    rw [he] at he'
    cases he'
    rw [hunique e r r' hr hr', htext'] at htext
    cases htext
    exact hvalue.trans hvalue'.symm
  unfold answersFrom
  split_ifs with h
  · constructor
    · rintro ⟨⟩
      exact h.choose_spec
    · intro hv
      rw [hone v _ hv h.choose_spec]
  · constructor
    · rintro ⟨⟩
    · exact fun hv => absurd ⟨v, hv⟩ h

/-- A derivable style is found at some depth: what a derivation rests on is found at depths that
one depth is above. -/
theorem styleWithin_of_derives {e : Element} {r : ResolvedStyle} (h : d.Derives e r) :
    ∃ n, d.styleWithin n e = .ok r := by
  have hunique (e : Element) (r r' : ResolvedStyle) (hr : ∃ n, d.styleWithin n e = .ok r)
      (hr' : ∃ n, d.styleWithin n e = .ok r') : r = r' := by
    obtain ⟨m, hm⟩ := hr
    obtain ⟨n, hn⟩ := hr'
    exact styleWithin_unique hm hn
  refine Derives.least (fun e r => ∃ n, d.styleWithin n e = .ok r) ?_ h
  intro e r hstyled
  have hlimit := (computeStyle_eq_ok_iff (answersFrom_eq_ok_iff hunique)).mpr hstyled
  obtain ⟨q, hq⟩ := e.exists_styledBy
  have heval := (hq.styleUnder_eq _).symm.trans hlimit
  obtain ⟨n, hn⟩ := (rising_level d).eval_some_level (fun s p span v hv => by
    obtain ⟨e, r, text, he, ⟨n, hn⟩, hvalue⟩ := (answersFrom_eq_ok_iff hunique s p span v).mp hv
    exact ⟨n, level_eq_ok_iff.mpr ⟨e, r, text, he, hn, hvalue⟩⟩) heval
  exact ⟨n + 1, by rw [styleWithin_succ, hq.styleUnder_eq, hn]⟩

theorem derives_unique {e : Element} {r r' : ResolvedStyle} (h : d.Derives e r)
    (h' : d.Derives e r') : r = r' := by
  obtain ⟨m, hm⟩ := styleWithin_of_derives h
  obtain ⟨n, hn⟩ := styleWithin_of_derives h'
  exact styleWithin_unique hm hn

theorem derives_of_styleWithin {n : Nat} {e : Element} {r : ResolvedStyle}
    (h : d.styleWithin n e = .ok r) : d.Derives e r := by
  induction n generalizing e r with
  | zero => cases h
  | succ n ih =>
    have hunique (e : Element) (r r' : ResolvedStyle) (hr : d.Derives e r) (hr' : d.Derives e r') :=
      derives_unique hr hr'
    refine .of_styled ((computeStyle_eq_ok_iff (answersFrom_eq_ok_iff hunique)).mp ?_)
    refine Element.styleUnder_mono ?_ h
    intro s p span v hv
    obtain ⟨e, r, text, he, hr, hvalue⟩ := level_eq_ok_iff.mp hv
    exact (answersFrom_eq_ok_iff hunique s p span _).mpr ⟨e, r, text, he, ih hr, hvalue⟩

/-- Plain evaluation gives an element a style exactly if some depth does. -/
theorem derives_iff {e : Element} {r : ResolvedStyle} :
    d.Derives e r ↔ ∃ n, d.styleWithin n e = .ok r :=
  ⟨styleWithin_of_derives, fun ⟨_, h⟩ => derives_of_styleWithin h⟩

end Document

/-- Whether a tree of questions comes to a question when every one before it has its value. -/
inductive Query.Reaches {α : Type} (refers : Selector → String → Value → Prop) :
    Query α → Selector → String → Prop
  | here {s p span next} : Reaches refers (.ask s p span next) s p
  | later {s p span next v s' p'} :
    refers s p v → Reaches refers (next v) s' p' → Reaches refers (.ask s p span next) s' p'

/-- On the way to the style of one element, plain evaluation asks for that of another. -/
def Document.Asks (d : Document) (e other : Element) : Prop :=
  ∃ q s p, e.StyledBy q ∧ q.Reaches (d.Refers d.Derives) s p ∧
    d.elements.find? s.accepts = some other

namespace Document

variable {d : Document}

theorem level_of_refers {s : Selector} {p : String} {v : Value} (h : d.Refers d.Derives s p v)
    (span : Span) : ∃ n, d.level n s p span = .ok v := by
  obtain ⟨e, r, text, he, hr, hvalue⟩ := h
  obtain ⟨n, hn⟩ := styleWithin_of_derives hr
  exact ⟨n, level_eq_ok_iff.mpr ⟨e, r, text, he, hn, hvalue⟩⟩

theorem level_of_reaches {n : Nat} {q : Query ResolvedStyle} {r : ResolvedStyle} {s : Selector}
    {p : String} (h : q.Reaches (d.Refers d.Derives) s p) (hq : q.eval (d.level n) = .ok r) :
    ∃ span v, d.level n s p span = .ok v := by
  induction h with
  | here =>
    obtain ⟨v, hv, -⟩ := Query.eval_ask_eq_ok_iff.mp hq
    exact ⟨_, v, hv⟩
  | later hrefers _ ih =>
    obtain ⟨w, hw, hnext⟩ := Query.eval_ask_eq_ok_iff.mp hq
    obtain ⟨m, hm⟩ := level_of_refers hrefers _
    rw [← (rising_level d).agree hm hw] at hnext
    exact ih hnext

/-- Asking leads to styles at smaller depths. -/
theorem Asks.styleWithin {e other : Element} (h : d.Asks e other) {n : Nat} {r : ResolvedStyle}
    (hr : d.styleWithin (n + 1) e = .ok r) : ∃ r', d.styleWithin n other = .ok r' := by
  obtain ⟨q, s, p, hq, hreaches, hother⟩ := h
  rw [styleWithin_succ, hq.styleUnder_eq] at hr
  obtain ⟨span, v, hv⟩ := level_of_reaches hreaches hr
  obtain ⟨e', r', text, he', hr', -, -⟩ := level_eq_ok_iff.mp hv
  rw [hother] at he'
  cases he'
  exact ⟨r', hr'⟩

theorem styleWithin_of_transGen {e other : Element} (h : Relation.TransGen d.Asks e other) {n : Nat}
    {r : ResolvedStyle} (hr : d.styleWithin n e = .ok r) :
    ∃ m < n, ∃ r', d.styleWithin m other = .ok r' := by
  induction h with
  | single hask =>
    cases n with
    | zero => cases hr
    | succ n => exact ⟨n, Nat.lt_succ_self n, hask.styleWithin hr⟩
  | tail _ hask ih =>
    obtain ⟨m, hm, r', hr'⟩ := ih
    cases m with
    | zero => cases hr'
    | succ m => exact ⟨m, by omega, hask.styleWithin hr'⟩

/-- Depths go down along a circle, so nothing on it has a style. -/
theorem not_derives_of_circle {e : Element} (h : Relation.TransGen d.Asks e e) (r : ResolvedStyle) :
    ¬ d.Derives e r := by
  rw [derives_iff]
  rintro ⟨n, hn⟩
  induction n using Nat.strongRecOn generalizing r with
  | _ n ih =>
    obtain ⟨m, hm, r', hr'⟩ := styleWithin_of_transGen h hn
    exact ih m hm r' hr'

/-- What leads into a circle has no style either. -/
theorem not_derives_of_reaches_circle {e other : Element} (h : Relation.ReflTransGen d.Asks e other)
    (hcircle : Relation.TransGen d.Asks other other) (r : ResolvedStyle) : ¬ d.Derives e r := by
  rcases Relation.reflTransGen_iff_eq_or_transGen.mp h with rfl | h
  · exact not_derives_of_circle hcircle r
  · intro hr
    obtain ⟨n, hn⟩ := derives_iff.mp hr
    obtain ⟨m, -, r', hr'⟩ := styleWithin_of_transGen h hn
    exact not_derives_of_circle hcircle r' (derives_of_styleWithin hr')

end Document

end Chtl
