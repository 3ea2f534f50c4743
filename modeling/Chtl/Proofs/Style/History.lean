import Chtl.Proofs.Style.Guard

/-!
# Resolving after other calls

A resolver is asked again and again, and every call may leave styles in its memory, also one that
fails half-way. All of them keep the memory right and the path empty, so what an element resolves to
is what plain evaluation gives, and the same as if nothing had been asked before.
-/

set_option autoImplicit false
set_option linter.all false

namespace Chtl

inductive Call where
  | resolve (e : Element)
  | evaluate (e : Expr) (style : StyleMap)
  | lowerToJs (e : Expr) (style : StyleMap)

/-- Elements that are resolved belong to the document, or share no id with it. -/
def Call.Fits (d : Document) : Call → Prop
  | resolve e => d.Fits e
  | evaluate _ _ | lowerToJs _ _ => True

namespace Resolver

variable (r : Resolver)

/-- The memory after a call, whether it succeeds or fails. -/
def call (m : Memo) : Call → Memo
  | .resolve e => ((r.resolve e).run.run m).2
  | .evaluate e style => ((r.evaluate e style).run.run m).2
  | .lowerToJs e style => ((r.lowerToJs e style).run.run m).2

/-- The memory of a new resolver after a sequence of calls. -/
def after (history : List Call) : Memo := history.foldl r.call {}

variable {r}

theorem remaining_le_depth (path : List Nat) : r.document.remaining path ≤ r.depth := by
  have hlength := r.document.remaining_le_length path
  have := r.elements_lt_depth
  omega

/-- With an empty path, a resolver gives what it would give without a memory. -/
theorem run_resolve (hd : r.document.Distinct) {e : Element} (he : e ∈ r.document.elements)
    {m : Memo} (hm : r.document.Steady [] m) :
    ∃ m', (r.resolve e).run.run m = (r.document.guarded r.depth [] e e.span, m') ∧
      r.document.Steady [] m' :=
  r.document.tracks hd r.depth [] e e.span m (remaining_le_depth []) he (Document.waits_nil _ e) hm

theorem steady_resolve (hd : r.document.Distinct) {e : Element} (hfits : r.document.Fits e)
    {m : Memo} (hm : r.document.Steady [] m) :
    r.document.Steady [] ((r.resolve e).run.run m).2 := by
  have hpos := r.elements_lt_depth
  obtain ⟨depth, hdepth⟩ : ∃ k, r.depth = k + 1 := ⟨r.depth - 1, by omega⟩
  rw [resolve, hdepth]
  cases hlookup : m.resolved.lookup e.nodeId with
  | some done =>
    rw [Document.resolveFrom_succ, Document.run_resolveStep_known hlookup]
    exact hm
  | none =>
    have hbound : r.document.remaining [e.nodeId] ≤ depth := by
      have hlength := r.document.remaining_le_length [e.nodeId]
      omega
    obtain ⟨m', hrun, hm'⟩ := (Document.tracks hd depth).run_fresh e.span hbound hfits
      (Document.waits_nil _ e) hm hlookup List.not_mem_nil
    rw [hrun]
    exact hm'

/-- Evaluating and lowering keep the memory right, whatever they ask. -/
theorem steady_asking (hd : r.document.Distinct) {α : Type}
    {x : (σ : Type) → Lookup σ → Evaluation σ α} (hx : Asking x) {m : Memo}
    (hm : r.document.Steady [] m) : r.document.Steady [] ((x Memo r.lookup).run.run m).2 := by
  obtain ⟨q, hq⟩ := hx
  obtain ⟨m', hrun, hm'⟩ := (Document.tracks hd r.depth).run_query (remaining_le_depth [])
    (fun _ => False) (q := q) (fun _ h => h.elim) (fun _ _ _ other _ _ => Document.waits_nil _ other) hm
  rw [hq, lookup, hrun]
  exact hm'

theorem steady_call (hd : r.document.Distinct) {c : Call} (hfits : c.Fits r.document) {m : Memo}
    (hm : r.document.Steady [] m) : r.document.Steady [] (r.call m c) := by
  cases c with
  | resolve e => exact steady_resolve hd hfits hm
  | evaluate e style => exact steady_asking hd (asking_eval style e) hm
  | lowerToJs e style => exact steady_asking hd (asking_lower style e) hm

theorem steady_after (hd : r.document.Distinct) {history : List Call}
    (hfits : ∀ c ∈ history, c.Fits r.document) : r.document.Steady [] (r.after history) := by
  have hrun (m : Memo) (hm : r.document.Steady [] m) :
      r.document.Steady [] (history.foldl r.call m) := by
    induction history generalizing m with
    | nil => exact hm
    | cons c history ih =>
      have hfirst := steady_call hd (hfits c List.mem_cons_self) hm
      exact ih (fun c hc => hfits c (List.mem_cons_of_mem _ hc)) (r.call m c) hfirst
  exact hrun {} (r.document.steady_empty)

/-- What a resolver gives for an element is derivable, and it gives what is derivable. -/
theorem guarded_eq_ok_iff (hd : r.document.Distinct) {e : Element} (he : e ∈ r.document.elements)
    {style : ResolvedStyle} :
    r.document.guarded r.depth [] e e.span = .ok style ↔ r.document.Derives e style := by
  rw [Document.derives_iff]
  constructor
  · exact fun h => ⟨r.depth, Document.styleWithin_of_guarded h⟩
  · rintro ⟨n, hn⟩
    exact Document.guarded_of_styleWithin hd (remaining_le_depth []) he (Document.waits_nil _ e) hn

/-- After any calls, resolving an element of a document ends without nesting deeper than there are
elements, finds a style exactly if plain evaluation derives it, and fails where that leads into a
circle. -/
theorem resolve_eq_ok_iff_derives (hd : r.document.Distinct) {history : List Call}
    (hfits : ∀ c ∈ history, c.Fits r.document) {e : Element} (he : e ∈ r.document.elements) :
    (∀ inner depth, r.document.elements.length < depth →
      ((r.document.resolveStep^[depth] inner) e e.span).run.run (r.after history) =
        (r.resolve e).run.run (r.after history)) ∧
    (∀ style, ((r.resolve e).run.run (r.after history)).1 = .ok style ↔
      r.document.Derives e style) ∧
    ∀ x, Relation.ReflTransGen r.document.Asks e x → Relation.TransGen r.document.Asks x x →
      ∃ fault, ((r.resolve e).run.run (r.after history)).1 = .error fault := by
  have hsteady := steady_after hd hfits
  obtain ⟨m', hrun, -⟩ := run_resolve hd he hsteady
  have hok (style : ResolvedStyle) : ((r.resolve e).run.run (r.after history)).1 = .ok style ↔
      r.document.Derives e style := by
    rw [hrun]
    exact guarded_eq_ok_iff hd he
  refine ⟨?_, hok, ?_⟩
  · intro inner depth hdepth
    have hlength := r.document.remaining_le_length []
    have hbound := r.elements_lt_depth
    rw [resolve, Document.resolveFrom_eq_iterate]
    exact (Document.run_iterate_resolveStep (by omega) (by omega) he hsteady.2).1
  · intro x hreach hcircle
    cases hresult : ((r.resolve e).run.run (r.after history)).1 with
    | error fault => exact ⟨fault, rfl⟩
    | ok style =>
      exact absurd ((hok style).mp hresult)
        (Document.not_derives_of_reaches_circle hreach hcircle style)

/-- An element with one declaration, which refers to a property of the same name elsewhere. -/
def referring (nodeId : Nat) (tag key other : String) : Element where
  nodeId := nodeId
  tag := tag
  style := [⟨key, .expr (.reference (.tag other) key (.point nodeId)), .point nodeId⟩]
  span := .point nodeId

/-- Two elements that refer to each other, one that refers to the last, and the last. -/
def crossing : Document where
  children := [
    .element (referring 0 "a" "width" "b"),
    .element (referring 1 "b" "width" "a"),
    .element (referring 2 "c" "color" "d"),
    .element ⟨3, "d", [], [], [⟨"color", .literal "red", .point 3⟩], [], [], .point 3⟩]

/-- A call that fails in the middle of a circle, and one that looks up the third element. -/
def asked : List Call :=
  [.resolve (referring 0 "a" "width" "b"),
    .lowerToJs (.reference (.tag "c") "color" (.point 4)) {}]

theorem distinct_crossing : crossing.resolver.document.Distinct := by
  unfold Document.Distinct
  decide

theorem fits_asked : ∀ c ∈ asked, c.Fits crossing.resolver.document := by
  intro c hc
  simp only [asked, List.mem_cons, List.not_mem_nil, or_false] at hc
  rcases hc with rfl | rfl
  · exact distinct_crossing.fits (List.mem_of_getElem? (i := 0) rfl)
  · trivial

theorem resolve_eq_ok_iff_derives_crossing :
    crossing.Derives (referring 2 "c" "color" "d") ⟨⟨[("color", "red")]⟩, []⟩ ∧
      ∀ style, ¬ crossing.Derives (referring 0 "a" "width" "b") style := by
  have hthird := resolve_eq_ok_iff_derives distinct_crossing fits_asked
    (e := referring 2 "c" "color" "d") (List.mem_of_getElem? (i := 2) rfl)
  have hfirst := resolve_eq_ok_iff_derives distinct_crossing fits_asked
    (e := referring 0 "a" "width" "b") (List.mem_of_getElem? (i := 0) rfl)
  refine ⟨(hthird.2.1 _).mp (by decide), ?_⟩
  intro style hstyle
  cases (hfirst.2.1 style).mpr hstyle

/-- Calls leave nothing on the path, and what an element resolves to after them, errors included, is
what a new resolver gives. -/
theorem resolve_after_history (hd : r.document.Distinct) {history : List Call}
    (hfits : ∀ c ∈ history, c.Fits r.document) {e : Element} (he : e ∈ r.document.elements) :
    (r.after history).inProgress = [] ∧
    ((r.resolve e).run.run (r.after history)).1 = ((r.resolve e).run.run {}).1 ∧
    ((r.resolve e).run.run (r.after history)).2.inProgress = [] := by
  have hsteady := steady_after hd hfits
  obtain ⟨m, hrun, hm⟩ := run_resolve hd he hsteady
  obtain ⟨m', hfresh, -⟩ := run_resolve hd he r.document.steady_empty
  rw [hrun, hfresh]
  exact ⟨hsteady.2, rfl, hm.2⟩

theorem resolve_after_history_crossing :
    ((crossing.resolver.resolve (referring 1 "b" "width" "a")).run.run
        (crossing.resolver.after asked)).1 =
      .error (.circularReference "b" (.point 0)) := by
  rw [(resolve_after_history distinct_crossing fits_asked
    (e := referring 1 "b" "width" "a") (List.mem_of_getElem? (i := 1) rfl)).2.1]
  decide

end Resolver

end Chtl
