import Chtl.Markup.Parse
import Chtl.Proofs.Markup.Leads
import Chtl.Proofs.Markup.Ledger

/-!
# Readers that succeed

A reader of an element's parts goes on in the text it began in and defines no template. What is
known of its result follows its steps, and a step that fails has no result to know of. A style body
gives its owner declarations and rules, one after the other, and a rule stands in the text of the
body.
-/

set_option autoImplicit false
set_option linter.all false

namespace Chtl.Markup

open Text Reader

variable {α β : Type} {s : Setting} {p q : Progress}

/-- A place further on in the same text, between names again, with the same templates. -/
structure Later (p q : Progress) : Prop where
  place : ∀ text, p.cursor.In text → q.cursor.In text
  apart : p.cursor.Apart → q.cursor.Apart
  offset : p.cursor.offset ≤ q.cursor.offset
  templates : q.templates = p.templates

namespace Later

theorem of_same {p q : Progress} (hcursor : q.cursor = p.cursor)
    (htemplates : q.templates = p.templates) : Later p q :=
  ⟨fun _ h => hcursor ▸ h, fun h => hcursor ▸ h, hcursor ▸ Nat.le_refl _, htemplates⟩

theorem refl (p : Progress) : Later p p := .of_same rfl rfl

theorem trans {r : Progress} (h : Later p q) (h' : Later q r) : Later p r :=
  ⟨fun text hp => h'.place text (h.place text hp), fun hp => h'.apart (h.apart hp),
    Nat.le_trans h.offset h'.offset, h'.templates.trans h.templates⟩

theorem advance {n : Nat} (h : p.cursor.Apart → (p.cursor.advance n).Apart) :
    Later p { p with cursor := p.cursor.advance n } :=
  ⟨fun _ hp => hp.advance n, h, Nat.le_add_right _ _, rfl⟩

end Later

/-- What a run that succeeds comes to. -/
def After (s : Setting) (x : Reader α) (p : Progress) (done : α → Progress → Prop) : Prop :=
  ∀ a q, (x.run s).run p = .ok (a, q) → done a q

/-- A run that succeeds goes on in its text, and its result is fine. -/
abbrev Passes (s : Setting) (x : Reader α) (p : Progress) (fine : α → Progress → Prop) : Prop :=
  After s x p fun a q => Later p q ∧ fine a q

section

variable {x : Reader α} {f : α → Reader β} {mid fine : α → Progress → Prop}
  {done good : β → Progress → Prop}

theorem After.bind (hx : After s x p mid) (hf : ∀ a q, mid a q → After s (f a) q done) :
    After s (x >>= f) p done := by
  intro b r hrun
  obtain ⟨a, q, hfirst, hrest⟩ := run_bind_eq_ok.mp hrun
  exact hf a q (hx a q hfirst) b r hrest

/-- Whatever the first step does. -/
theorem After.whatever (hf : ∀ a q, After s (f a) q done) : After s (x >>= f) p done := by
  have hx : After s x p fun _ _ => True := fun _ _ _ => trivial
  exact hx.bind fun a q _ => hf a q

theorem After.mono (hx : After s x p mid) (h : ∀ a q, mid a q → fine a q) : After s x p fine :=
  fun a q hrun => h a q (hx a q hrun)

theorem Passes.bind (hx : Passes s x p fine)
    (hf : ∀ a q, Later p q → fine a q → Passes s (f a) q good) : Passes s (x >>= f) p good :=
  After.bind hx fun a q ⟨hq, ha⟩ => (hf a q hq ha).mono fun _ _ ⟨hr, hb⟩ => ⟨hq.trans hr, hb⟩

theorem Passes.mono (hx : Passes s x p mid) (h : ∀ a q, Later p q → mid a q → fine a q) :
    Passes s x p fine :=
  After.mono hx fun a q ⟨hq, ha⟩ => ⟨hq, h a q hq ha⟩

/-- What is read from a later place on is read from an earlier one on. -/
theorem Passes.since (hx : Passes s x q fine) (hq : Later p q) :
    After s x q fun a r => Later p r ∧ fine a r :=
  After.mono hx fun _ _ ⟨hr, ha⟩ => ⟨hq.trans hr, ha⟩

theorem After.pure {a : α} (h : fine a p) : After s (Pure.pure a) p fine := by
  rintro _ _ ⟨⟩
  exact h

theorem Passes.pure {a : α} (h : fine a p) : Passes s (Pure.pure a) p fine :=
  After.pure ⟨.refl p, h⟩

theorem After.fail (e : MarkupError) : After s (Reader.fail e) p fine := by
  rintro _ _ ⟨⟩

theorem After.unexpected (expected : Expectation) :
    After s (Reader.unexpected expected) p fine :=
  fun _ _ hrun => absurd hrun (run_unexpected_ne expected)

theorem After.ite {c : Prop} [Decidable c] {y z : Reader α} (hy : c → After s y p fine)
    (hz : ¬ c → After s z p fine) : After s (if c then y else z) p fine := by
  split_ifs with hc
  · exact hy hc
  · exact hz hc

/-- A step that is only made in some cases. -/
theorem Passes.optional {c : Prop} [Decidable c] {y : Reader β}
    (hx : Passes s x p fun _ _ => True) (hy : ∀ q, Later p q → Passes s y q good) :
    Passes s (if c then x >>= fun _ => y else y) p good :=
  .ite (fun _ => hx.bind fun _ q hq _ => hy q hq) fun _ => hy p (.refl p)

end

/-! ## Steps that look without reading -/

namespace After

variable {done : β → Progress → Prop}

theorem cursor {f : Cursor → Reader β} (h : After s (f p.cursor) p done) :
    After s (Reader.cursor >>= f) p done := h

theorem offset {f : Nat → Reader β} (h : After s (f p.cursor.offset) p done) :
    After s (Reader.offset >>= f) p done := h

theorem rest {f : List Char → Reader β} (h : After s (f p.cursor.rest) p done) :
    After s (Reader.rest >>= f) p done := h

theorem peek? {f : Option Char → Reader β} (h : After s (f p.cursor.peek?) p done) :
    After s (Reader.peek? >>= f) p done := h

theorem atEnd {f : Bool → Reader β} (h : After s (f p.cursor.atEnd) p done) :
    After s (Reader.atEnd >>= f) p done := h

theorem looksAt {lead : List Char} {f : Bool → Reader β}
    (h : After s (f (startsWith p.cursor.rest lead)) p done) :
    After s (Reader.looksAt lead >>= f) p done := h

theorem read {f : Setting → Reader β} (h : After s (f s) p done) :
    After s (MonadReader.read >>= f) p done := h

theorem get {f : Progress → Reader β} (h : After s (f p) p done) :
    After s (MonadState.get >>= f) p done := h

theorem spanOf {start stop : Nat} {f : Span → Reader β}
    (h : After s (f (s.origin.span start stop)) p done) :
    After s (Reader.spanOf start stop >>= f) p done := h

theorem spanFrom {start : Nat} {f : Span → Reader β}
    (h : After s (f (s.origin.span start p.cursor.offset)) p done) :
    After s (Reader.spanFrom start >>= f) p done := h

theorem setCursor {c : Cursor} {f : Unit → Reader β}
    (h : After s (f ()) { p with cursor := c } done) :
    After s (Reader.setCursor c >>= f) p done := h

theorem withReader {change : Setting → Setting} {x : Reader β}
    (h : After (change s) x p done) : After s (withReader change x) p done := h

/-- Another text is read from its start, and the cursor comes back. -/
theorem within {origin : Origin} {text : List Char} {x : Reader β}
    (h : After { s with origin := origin } x { p with cursor := ⟨none, 0, text⟩ } fun a q =>
      done a { q with cursor := p.cursor }) : After s (Reader.within origin text x) p done :=
  After.cursor (After.setCursor (After.bind (After.withReader h) fun _ _ hdone =>
    After.setCursor (After.pure hdone)))

theorem block? {name : String} {f : Option (Fragment × Placeholder) → Reader β}
    (hnone : After s (f none) p done)
    (hsome : ∀ fragment b, s.scanned.fragment? name = some fragment →
      fragment.placeholder = some b → After s (f (some (fragment, b))) p done) :
    After s (Reader.block? name >>= f) p done := by
  intro a r hrun
  obtain ⟨found, q, hfound, hrun⟩ := run_bind_eq_ok.mp hrun
  obtain ⟨_, _, ⟨⟩, hfound⟩ := run_bind_eq_ok.mp hfound
  split at hfound
  · rename_i fragment hfragment
    cases hfound
    cases hplaceholder : fragment.placeholder with
    | none =>
      rw [hplaceholder] at hrun
      exact hnone a r hrun
    | some b =>
      rw [hplaceholder] at hrun
      exact hsome fragment b hfragment hplaceholder a r hrun
  · cases hfound
    exact hnone a r hrun

end After

/-! ## Steps that read on -/

namespace Passes

theorem of_same {x : Reader α} (h : ∀ a q, (x.run s).run p = .ok (a, q) →
    q.cursor = p.cursor ∧ q.templates = p.templates) : Passes s x p fun _ _ => True :=
  fun a q hrun => ⟨.of_same (h a q hrun).1 (h a q hrun).2, trivial⟩

theorem consume (b : Placeholder) : Passes s (Reader.consume b) p fun _ _ => True :=
  of_same <| by rintro _ _ ⟨⟩; exact ⟨rfl, rfl⟩

theorem freshId : Passes s Reader.freshId p fun _ _ => True :=
  of_same <| by rintro _ _ ⟨⟩; exact ⟨rfl, rfl⟩

theorem skipTrivia : Passes s Reader.skipTrivia p fun _ _ => True := by
  rintro _ _ ⟨⟩
  exact ⟨.advance Cursor.Apart.trivia, trivial⟩

theorem takeRaw {stops : List Char} (hstops : stops.any isNameChar = false) :
    Passes s (Reader.takeRaw stops) p fun _ _ => True := by
  rintro _ _ ⟨⟩
  exact ⟨.advance fun _ => Cursor.apart_raw hstops p.cursor, trivial⟩

/-- A character that stands ahead and is part of no name is passed over. -/
theorem skip_one {x : Char} (hhead : p.cursor.peek? = some x) (hx : isNameChar x = false) :
    Passes s (Reader.skip 1) p fun _ _ => True := by
  rintro _ _ ⟨⟩
  exact ⟨.advance fun _ => Cursor.apart_advance_one hhead hx, trivial⟩

theorem eat {x : Char} (hx : isNameChar x = false) :
    Passes s (Reader.eat x) p fun _ _ => True :=
  After.peek? (.ite (fun hhead => (skip_one hhead hx).bind fun _ _ _ _ => Passes.pure trivial)
    fun _ => Passes.pure trivial)

theorem expect {x : Char} (hx : isNameChar x = false) (expected : Expectation) :
    Passes s (Reader.expect x expected) p fun _ _ => True :=
  (eat hx).bind fun _ _ _ _ => .ite (fun _ => Passes.pure trivial) fun _ => .unexpected expected

theorem keyword (word : String) : Passes s (Reader.keyword word) p fun _ _ => True := by
  refine After.rest ?_
  split
  · rename_i name hname
    refine .ite (fun _ => ?_) fun _ => Passes.pure trivial
    rintro _ _ ⟨⟩
    exact ⟨.advance fun _ => Cursor.apart_name hname, trivial⟩
  · exact Passes.pure trivial

theorem takeBalanced : Passes s Reader.takeBalanced p fun _ _ => True := by
  refine After.rest ?_
  split
  · rename_i n hn
    rintro _ _ ⟨⟩
    exact ⟨.advance fun _ => Cursor.apart_balanced hn, trivial⟩
  · exact After.whatever fun _ _ => .unexpected _

theorem takeName? : Passes s Reader.takeName? p fun name q => ∀ n ∈ name, Named p n q := by
  refine After.rest ?_
  split
  · rename_i name hname
    rintro _ _ ⟨⟩
    refine ⟨.advance fun _ => Cursor.apart_name hname, fun n hn => ?_⟩
    cases hn
    exact ⟨by rwa [String.toList_ofList], by rw [String.toList_ofList]⟩
  · exact Passes.pure (by simp)

theorem takeName (expected : Expectation) :
    Passes s (Reader.takeName expected) p fun name q => Named p name q := by
  intro name q hrun
  obtain ⟨found, r, hfound, hrest⟩ := run_bind_eq_ok.mp hrun
  obtain ⟨hlater, hname⟩ := takeName? found r hfound
  cases found with
  | none => exact absurd hrest (run_unexpected_ne expected)
  | some found =>
    cases hrest
    exact ⟨hlater, hname _ rfl⟩

end Passes

/-! ## Style bodies -/

/-- What a style body makes of its owner, whose rules stand inside something. -/
inductive Styled (inside : Span → Prop) (owner : Element) : Element → Prop
  | refl : Styled inside owner owner
  | setDeclaration {e : Element} (h : Styled inside owner e) (d : StyleDeclaration) :
    Styled inside owner (e.setDeclaration d)
  | addRule {e : Element} (h : Styled inside owner e) {r : StyleRule} (hr : inside r.span) :
    Styled inside owner (e.addRule r)

theorem Styled.trans {inside : Span → Prop} {owner e e' : Element} (h : Styled inside owner e)
    (h' : Styled inside e e') : Styled inside owner e' := by
  induction h' with
  | refl => exact h
  | setDeclaration _ d ih => exact .setDeclaration ih d
  | addRule _ hr ih => exact .addRule ih hr

theorem Styled.mono {inside wider : Span → Prop} {owner e : Element} (h : Styled inside owner e)
    (hwider : ∀ span, inside span → wider span) : Styled wider owner e := by
  induction h with
  | refl => exact .refl
  | setDeclaration _ d ih => exact .setDeclaration ih d
  | addRule _ hr ih => exact .addRule ih (hwider _ hr)

/-- The span of a stretch of the text that the cursor stands in. -/
def Setting.Spans (s : Setting) (p : Progress) (span : Span) : Prop :=
  ∃ start stop, start ≤ stop ∧ (∀ text, p.cursor.In text → stop ≤ size text) ∧
    span = s.origin.span start stop

theorem Setting.Spans.of_later {span : Span} (h : s.Spans q span) (hq : Later p q) :
    s.Spans p span := by
  obtain ⟨start, stop, hle, hstop, rfl⟩ := h
  exact ⟨start, stop, hle, fun text hp => hstop text (hq.place text hp), rfl⟩

section

variable {owner : Element}

theorem passes_expandedValue (cs : List Char) (span : Span) :
    Passes s (expandedValue cs span) p fun _ _ => True := by
  refine After.get ?_
  split
  · exact Passes.pure trivial
  · exact .fail _

theorem passes_declaration (key raw : List Char) (rawStart start : Nat) (conditional : Bool) :
    Passes s (declaration key raw rawStart start conditional) p fun _ _ => True := by
  refine After.spanOf (.ite (fun _ => ?_) fun _ => .ite (fun _ => ?_) fun _ => ?_)
  · exact After.spanOf (.fail _)
  · exact After.rest (.fail _)
  · exact (passes_expandedValue _ _).bind fun text q _ _ =>
      .ite (fun _ => .fail _) fun _ => After.spanFrom (Passes.pure trivial)

theorem styled_foldl {inside : Span → Prop} (owner : Element) (ds : List StyleDeclaration) :
    Styled inside owner (ds.foldl Element.setDeclaration owner) := by
  induction ds generalizing owner with
  | nil => exact .refl
  | cons d ds ih => exact .trans (.setDeclaration .refl d) (ih _)

theorem passes_styleUse :
    Passes s (styleUse owner) p fun e _ => Styled (s.Spans p) owner e := by
  refine After.offset ((Passes.keyword _).bind fun _ _ _ _ => ?_)
  refine Passes.optional .skipTrivia fun _ _ => (Passes.expect (by decide) _).bind fun _ _ _ _ => ?_
  refine (Passes.keyword _).bind fun _ _ _ _ => Passes.optional (.unexpected _) fun _ _ => ?_
  refine Passes.skipTrivia.bind fun _ _ _ _ => (Passes.takeName _).bind fun _ _ _ _ => ?_
  refine Passes.skipTrivia.bind fun _ _ _ _ => (Passes.eat (by decide)).bind fun _ _ _ _ => ?_
  refine After.get ?_
  split
  · exact Passes.pure (styled_foldl owner _)
  · exact After.spanFrom (.fail _)

theorem passes_styleRule (allowed : Bool) :
    Passes s (styleRule owner allowed) p fun e _ => Styled (s.Spans p) owner e := by
  refine After.offset ((Passes.takeRaw (by decide)).bind fun raw q hq _ => ?_)
  refine .ite (fun _ => ?_) fun _ => ?_
  · exact After.spanOf (.fail _)
  refine (Passes.expect (by decide) _).bind fun _ q' hq' _ => ?_
  refine Passes.takeBalanced.bind fun body r hr _ => After.spanFrom (Passes.pure ?_)
  have hlater := (hq.trans hq').trans hr
  refine Styled.addRule .refl ⟨_, _, hlater.offset, fun text hp => ?_, rfl⟩
  exact (hlater.place text hp).offset_le

theorem passes_styleDeclaration :
    Passes s (styleDeclaration owner) p fun e _ => Styled (s.Spans p) owner e := by
  refine After.offset ((Passes.takeRaw (by decide)).bind fun key _ _ _ => ?_)
  refine (Passes.eat (by decide)).bind fun _ _ _ _ => .ite (fun _ => ?_) fun _ => ?_
  · refine (Passes.takeRaw (by decide)).bind fun raw _ _ _ => ?_
    refine (Passes.eat (by decide)).bind fun _ _ _ _ => ?_
    refine (passes_declaration _ _ _ _ _).bind fun d _ _ _ => ?_
    exact Passes.pure (Styled.setDeclaration .refl d)
  · exact After.spanOf (.fail _)

theorem passes_styleItem (rules : Bool) :
    Passes s (styleItem owner rules) p fun e _ => Styled (s.Spans p) owner e :=
  After.cursor (.ite (fun _ => passes_styleUse) fun _ =>
    .ite (fun _ => passes_styleRule rules) fun _ => passes_styleDeclaration)

theorem passes_styleItems (rules closed : Bool) (limit : Nat) :
    Passes s (styleItems rules closed limit owner) p fun e _ => Styled (s.Spans p) owner e := by
  induction limit generalizing owner p with
  | zero => exact Passes.pure Styled.refl
  | succ limit ih =>
    have hitem (ended : Bool) (p : Progress) : Passes s
        (if ended = true then pure owner
          else do
            if ← atEnd then Reader.unexpected .closeBrace
            else styleItems rules closed limit (← styleItem owner rules)) p
        fun e _ => Styled (s.Spans p) owner e := by
      refine .ite (fun _ => Passes.pure Styled.refl) fun _ => ?_
      refine After.atEnd (.ite (fun _ => .unexpected _) ?_)
      exact fun _ => (passes_styleItem rules).bind fun e q hq he =>
        (ih (p := q)).mono fun e' _ _ he' => he.trans (he'.mono fun _ h => h.of_later hq)
    refine Passes.skipTrivia.bind fun _ q hq _ => ?_
    have hwider {x : Reader Element} {r : Progress} (hr : Later p r)
        (h : Passes s x r fun e _ => Styled (s.Spans r) owner e) :
        Passes s x r fun e _ => Styled (s.Spans p) owner e :=
      h.mono fun e _ _ he => he.mono fun _ hspan => hspan.of_later hr
    dsimp only
    split_ifs
    · exact (Passes.eat (by decide)).bind fun ended r hr _ => hwider (hq.trans hr) (hitem ended r)
    · exact After.atEnd (hwider hq (hitem _ q))

theorem passes_styleBody (rules closed : Bool) :
    Passes s (styleBody owner rules closed) p fun e _ => Styled (s.Spans p) owner e :=
  After.rest (passes_styleItems rules closed _)

end

end Chtl.Markup
