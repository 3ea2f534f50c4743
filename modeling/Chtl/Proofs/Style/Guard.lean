import Chtl.Proofs.Style.Level
import Mathlib.Data.List.Nodup
import Mathlib.Logic.Function.Iterate

/-!
# Resolving with a memory and a path

Resolving an element remembers styles and keeps the elements in progress on a path. Without the
memory it would come to the same, errors included: an element on the path waits for the one that is
asked for, so it has a style only at a greater depth, and a remembered style cannot rest on it.

The path holds elements of the document once each, so calls nest no deeper than there are elements.
-/

set_option autoImplicit false
set_option linter.all false

namespace Chtl

/-- What running a computation with an element on the path comes to. -/
theorem run_onPath {α : Type} (nodeId : Nat) (body : Evaluation Memo α) (m : Memo) :
    (onPath nodeId body).run.run m =
      let (result, after) := body.run.run { m with inProgress := nodeId :: m.inProgress }
      (result, { after with inProgress := after.inProgress.tail }) := by
  unfold onPath
  cases hbody : body.run.run { m with inProgress := nodeId :: m.inProgress } with
  | mk result after =>
    have hpush : (modify fun m : Memo => { m with inProgress := nodeId :: m.inProgress } :
        Evaluation Memo Unit).run.run m =
          (.ok (), { m with inProgress := nodeId :: m.inProgress }) := rfl
    have hlift : (ExceptT.lift body.run : Evaluation Memo _).run.run
        { m with inProgress := nodeId :: m.inProgress } = (.ok result, after) := by
      change (Except.ok <$> body.run : StateM Memo _).run _ = _
      rw [StateT.run_map, hbody]
      rfl
    rw [run_bind_ok hpush, run_bind_ok hlift]
    cases result <;> rfl

/-- The memory when an element leaves the path: a style that was found is remembered. -/
def Memo.leave (m : Memo) (nodeId : Nat) : Except EvalError ResolvedStyle → Memo
  | .ok r => ⟨(nodeId, r) :: m.resolved, m.inProgress.tail⟩
  | .error _ => ⟨m.resolved, m.inProgress.tail⟩

theorem Memo.leave_inProgress (m : Memo) (nodeId : Nat) (result : Except EvalError ResolvedStyle) :
    (m.leave nodeId result).inProgress = m.inProgress.tail := by
  cases result <;> rfl

namespace Document

/-- One call of the resolver, with a way to make the calls for other elements. -/
def resolveStep (d : Document) (inner : Element → Span → Evaluation Memo ResolvedStyle)
    (e : Element) (span : Span) : Evaluation Memo ResolvedStyle := do
  let memo ← get
  match memo.resolved.lookup e.nodeId with
  | some done => pure done
  | none =>
    if memo.inProgress.contains e.nodeId then throw (.circularReference e.describe span)
    else
      let resolved ← onPath e.nodeId (e.computeStyle (d.lookupVia inner))
      modify fun m => { m with resolved := (e.nodeId, resolved) :: m.resolved }
      pure resolved

theorem resolveFrom_succ (d : Document) (depth : Nat) :
    d.resolveFrom (depth + 1) = d.resolveStep (d.resolveFrom depth) := rfl

/-- A bound on the depth is so many nested calls, and a failure at the bottom. -/
theorem resolveFrom_eq_iterate (d : Document) (depth : Nat) :
    d.resolveFrom depth = d.resolveStep^[depth] (d.resolveFrom 0) := by
  induction depth with
  | zero => rfl
  | succ depth ih => rw [resolveFrom_succ, ih, Function.iterate_succ_apply']

variable {d : Document}

theorem run_resolveStep_known {inner : Element → Span → Evaluation Memo ResolvedStyle} {e : Element}
    {span : Span} {m : Memo} {done : ResolvedStyle} (h : m.resolved.lookup e.nodeId = some done) :
    (d.resolveStep inner e span).run.run m = (.ok done, m) := by
  have hget : (get : Evaluation Memo Memo).run.run m = (.ok m, m) := rfl
  rw [resolveStep, run_bind_ok hget, h]
  rfl

theorem run_resolveStep_circle {inner : Element → Span → Evaluation Memo ResolvedStyle}
    {e : Element} {span : Span} {m : Memo} (h : m.resolved.lookup e.nodeId = none)
    (hpath : e.nodeId ∈ m.inProgress) :
    (d.resolveStep inner e span).run.run m = (.error (.circularReference e.describe span), m) := by
  have hget : (get : Evaluation Memo Memo).run.run m = (.ok m, m) := rfl
  rw [resolveStep, run_bind_ok hget, h]
  dsimp only
  rw [if_pos (List.contains_iff_mem.mpr hpath)]
  rfl

/-- A call that computes a style leaves the path as it was, and remembers the style. -/
theorem run_resolveStep_fresh {inner : Element → Span → Evaluation Memo ResolvedStyle}
    {e : Element} {span : Span} {m after : Memo} {result : Except EvalError ResolvedStyle}
    (h : m.resolved.lookup e.nodeId = none) (hpath : e.nodeId ∉ m.inProgress)
    (hrun : (e.computeStyle (d.lookupVia inner)).run.run
      { m with inProgress := e.nodeId :: m.inProgress } = (result, after)) :
    (d.resolveStep inner e span).run.run m = (result, after.leave e.nodeId result) := by
  have hget : (get : Evaluation Memo Memo).run.run m = (.ok m, m) := rfl
  have honPath := run_onPath e.nodeId (e.computeStyle (d.lookupVia inner)) m
  rw [hrun] at honPath
  rw [resolveStep, run_bind_ok hget, h]
  dsimp only
  rw [if_neg (by simpa using hpath)]
  cases result with
  | ok r =>
    rw [run_bind_ok honPath]
    rfl
  | error fault => exact run_bind_error honPath

/-- How many elements of the document are not on a path. -/
def remaining (d : Document) (path : List Nat) : Nat :=
  d.elements.countP fun x => x.nodeId ∉ path

theorem remaining_cons_lt {e : Element} {path : List Nat} (he : e ∈ d.elements)
    (hpath : e.nodeId ∉ path) : d.remaining (e.nodeId :: path) < d.remaining path := by
  have hle (xs : List Element) : xs.countP (fun x => x.nodeId ∉ e.nodeId :: path) ≤
      xs.countP fun x => x.nodeId ∉ path := by
    refine List.countP_mono_left ?_
    intro x _ hx
    simp only [List.mem_cons, not_or, decide_eq_true_eq] at hx ⊢
    exact hx.2
  obtain ⟨front, back, hsplit⟩ := List.append_of_mem he
  have hfront := hle front
  have hback := hle back
  rw [remaining, remaining, hsplit, List.countP_append, List.countP_append,
    List.countP_cons_of_neg (by simp), List.countP_cons_of_pos (by simpa using hpath)]
  omega

theorem remaining_le_length (d : Document) (path : List Nat) :
    d.remaining path ≤ d.elements.length :=
  List.countP_le_length

/-- Node ids tell the elements of a document apart. -/
def Distinct (d : Document) : Prop := (d.elements.map Element.nodeId).Nodup

/-- An element that is the document's own if it has the id of one. -/
def Fits (d : Document) (e : Element) : Prop := ∀ x ∈ d.elements, x.nodeId = e.nodeId → x = e

theorem Distinct.fits (h : d.Distinct) {e : Element} (he : e ∈ d.elements) : d.Fits e :=
  fun _ hx hid => List.inj_on_of_nodup_map h hx he hid

/-- Every element on the path that has a style at some depth waits for one of the element asked for,
at a smaller depth. -/
def Waits (d : Document) (path : List Nat) (e : Element) : Prop :=
  ∀ x ∈ d.elements, x.nodeId ∈ path → ∀ n r, d.styleWithin n x = .ok r →
    ∃ k < n, ∃ r', d.styleWithin k e = .ok r'

theorem waits_nil (d : Document) (e : Element) : d.Waits [] e := by
  intro x _ hx
  cases hx

theorem Waits.not_mem {path : List Nat} {e : Element} (h : d.Waits path e) (he : e ∈ d.elements)
    {n : Nat} {r : ResolvedStyle} (hr : d.styleWithin n e = .ok r) : e.nodeId ∉ path := by
  intro hpath
  induction n using Nat.strongRecOn generalizing r with
  | _ n ih =>
    obtain ⟨k, hk, r', hr'⟩ := h e he hpath n r hr
    exact ih k hk hr'

theorem Waits.cons {path : List Nat} {e other : Element} (h : d.Waits path e) (hfits : d.Fits e)
    (hstep : ∀ n r, d.styleWithin (n + 1) e = .ok r → ∃ r', d.styleWithin n other = .ok r') :
    d.Waits (e.nodeId :: path) other := by
  intro x hx hpath n r hr
  rcases List.mem_cons.mp hpath with hid | hpath
  · rw [hfits x hx hid] at hr
    cases n with
    | zero => cases hr
    | succ n => exact ⟨n, Nat.lt_succ_self n, hstep n r hr⟩
  · obtain ⟨k, hk, r', hr'⟩ := h x hx hpath n r hr
    cases k with
    | zero => cases hr'
    | succ k => exact ⟨k, by omega, hstep k r' hr'⟩

/-- Resolving with a path and no memory. -/
def guarded (d : Document) : (depth : Nat) → (path : List Nat) → Element → Span →
    Except EvalError ResolvedStyle
  | 0, _, e, span => .error (.circularReference e.describe span)
  | depth + 1, path, e, span =>
    if e.nodeId ∈ path then .error (.circularReference e.describe span)
    else e.styleUnder (d.answersVia (d.guarded depth (e.nodeId :: path)))

theorem styleWithin_of_guarded {depth : Nat} {path : List Nat} {e : Element} {span : Span}
    {r : ResolvedStyle} (h : d.guarded depth path e span = .ok r) :
    d.styleWithin depth e = .ok r := by
  induction depth generalizing path e span r with
  | zero => cases h
  | succ depth ih =>
    rw [guarded] at h
    split_ifs at h
    exact Element.styleUnder_mono (answersVia_mono fun e span r hr => ih hr) h

/-- The answers on the way to the style of an element are about elements that it waits for. -/
theorem waits_of_levels {path : List Nat} {e other : Element} {s : Selector} {p : String}
    {span : Span} (h : d.Waits path e) (hfits : d.Fits e) (hother : d.find? s = some other)
    (hlevels : ∀ n, (∃ r, d.styleWithin (n + 1) e = .ok r) → ∃ v, d.level n s p span = .ok v) :
    d.Waits (e.nodeId :: path) other := by
  refine h.cons hfits ?_
  intro n r hr
  obtain ⟨v, hv⟩ := hlevels n ⟨r, hr⟩
  obtain ⟨e', r', text, he', hr', -, -⟩ := answersVia_eq_ok_iff.mp hv
  rw [hother] at he'
  cases he'
  exact ⟨r', hr'⟩

/-- An element with a style that the path waits for is resolved to it. -/
theorem guarded_of_styleWithin (hd : d.Distinct) {depth n : Nat} {path : List Nat} {e : Element}
    {span : Span} {r : ResolvedStyle} (hdepth : d.remaining path ≤ depth) (he : e ∈ d.elements)
    (hwaits : d.Waits path e) (h : d.styleWithin n e = .ok r) :
    d.guarded depth path e span = .ok r := by
  have hpath := hwaits.not_mem he h
  induction depth generalizing path e span r n with
  | zero =>
    have := remaining_cons_lt he hpath
    omega
  | succ depth ih =>
    rw [guarded, if_neg hpath]
    have hless := remaining_cons_lt he hpath
    obtain ⟨q, hq⟩ := e.exists_styledBy
    cases n with
    | zero => cases h
    | succ n =>
      rw [hq.styleUnder_eq]
      refine (rising_level d).eval_follow (fun n => ∃ r, d.styleWithin (n + 1) e = .ok r) n ?_ ?_ ?_
      · intro s p span v hlevels hv
        obtain ⟨other, r', text, hother, hr', htext, hvalue⟩ := answersVia_eq_ok_iff.mp hv
        have hmem := mem_elements_of_find? hother
        have hnext := waits_of_levels hwaits (hd.fits he) hother hlevels
        refine answersVia_eq_ok_iff.mpr ⟨other, r', text, hother, ?_, htext, hvalue⟩
        exact ih (by omega) hmem hnext hr' (hnext.not_mem hmem hr')
      · rintro n ⟨r, hr⟩
        exact ⟨r, (hq.styleUnder_eq _).symm.trans hr⟩
      · exact (hq.styleUnder_eq _).symm.trans h

/-- What is remembered of the document's elements is derivable. -/
def Known (d : Document) (m : Memo) : Prop :=
  ∀ x ∈ d.elements, ∀ r, m.resolved.lookup x.nodeId = some r → ∃ n, d.styleWithin n x = .ok r

/-- The memory is right, and the path is as given. -/
def Steady (d : Document) (path : List Nat) (m : Memo) : Prop := d.Known m ∧ m.inProgress = path

theorem steady_empty (d : Document) : d.Steady [] {} := by
  refine ⟨?_, rfl⟩
  intro x _ r hr
  cases hr

theorem Known.remember {m : Memo} (h : d.Known m) {e : Element} {r : ResolvedStyle} {n : Nat}
    (hfits : d.Fits e) (hr : d.styleWithin n e = .ok r) :
    d.Known { m with resolved := (e.nodeId, r) :: m.resolved } := by
  intro x hx r' hr'
  rw [List.lookup_cons] at hr'
  split at hr'
  · rename_i hid
    cases hr'
    rw [hfits x hx (by simpa using hid)]
    exact ⟨n, hr⟩
  · exact h x hx r' hr'

/-- At a depth, resolving elements of the document comes to the same with a memory as without. -/
def Tracks (d : Document) (depth : Nat) : Prop :=
  ∀ path e span m, d.remaining path ≤ depth → e ∈ d.elements → d.Waits path e → d.Steady path m →
    ∃ m', (d.resolveFrom depth e span).run.run m = (d.guarded depth path e span, m') ∧
      d.Steady path m'

/-- A tree of questions runs alike with and without a memory, if the path waits for every element
that it asks for. -/
theorem Tracks.run_query {α : Type} {depth : Nat} (h : d.Tracks depth) {path : List Nat}
    (hdepth : d.remaining path ≤ depth) (member : Nat → Prop) {q : Query α}
    (hq : ∀ n, member n → ∃ a, q.eval (d.level n) = .ok a)
    (hwaits : ∀ s p span other, (∀ n, member n → ∃ v, d.level n s p span = .ok v) →
      d.find? s = some other → d.Waits path other)
    {m : Memo} (hm : d.Steady path m) :
    ∃ m', (q.run (d.lookupVia (d.resolveFrom depth))).run.run m =
      (q.eval (d.answersVia (d.guarded depth path)), m') ∧ d.Steady path m' := by
  refine (rising_level d).run_follow member ?_ ?_ hq hm
  · intro s p span hlevels m hm
    refine run_lookupVia hm ?_
    intro other hother
    exact h path other span m hdepth (mem_elements_of_find? hother)
      (hwaits s p span other hlevels hother) hm
  · intro s p span v hv
    exact ⟨depth, answersVia_mono (fun e span r hr => styleWithin_of_guarded hr) s p span v hv⟩

/-- A call that has to compute a style does so as without a memory, and may then remember it. -/
theorem Tracks.run_fresh {depth : Nat} (h : d.Tracks depth) {path : List Nat} {e : Element}
    (span : Span) {m : Memo} (hdepth : d.remaining (e.nodeId :: path) ≤ depth) (hfits : d.Fits e)
    (hwaits : d.Waits path e) (hm : d.Steady path m) (hnew : m.resolved.lookup e.nodeId = none)
    (hpath : e.nodeId ∉ path) :
    ∃ m', (d.resolveFrom (depth + 1) e span).run.run m =
      (e.styleUnder (d.answersVia (d.guarded depth (e.nodeId :: path))), m') ∧
      d.Steady path m' := by
  obtain ⟨q, hq⟩ := e.exists_styledBy
  obtain ⟨hknown, rfl⟩ := hm
  have hentered : d.Steady (e.nodeId :: m.inProgress)
      { m with inProgress := e.nodeId :: m.inProgress } := ⟨hknown, rfl⟩
  obtain ⟨after, hrun, hafter, hinside⟩ := h.run_query hdepth
    (fun n => ∃ r, d.styleWithin (n + 1) e = .ok r) (q := q)
    (fun n ⟨r, hr⟩ => ⟨r, (hq.styleUnder_eq _).symm.trans hr⟩)
    (fun s p span other hlevels hother => waits_of_levels hwaits hfits hother hlevels) hentered
  rw [← hq, ← hq.styleUnder_eq] at hrun
  rw [resolveFrom_succ]
  refine ⟨_, run_resolveStep_fresh hnew hpath hrun, ?_, by simp [Memo.leave_inProgress, hinside]⟩
  -- A style that is remembered has just been found, and so is derivable.
  cases hresult : e.styleUnder (d.answersVia (d.guarded depth (e.nodeId :: m.inProgress))) with
  | error fault => exact hafter
  | ok r =>
    have hguarded : d.guarded (depth + 1) m.inProgress e span = .ok r := by
      rw [guarded, if_neg hpath, hresult]
    exact hafter.remember hfits (styleWithin_of_guarded hguarded)

theorem tracks (hd : d.Distinct) (depth : Nat) : d.Tracks depth := by
  induction depth with
  | zero => exact fun path e span m _ _ _ hm => ⟨m, rfl, hm⟩
  | succ depth ih =>
    intro path e span m hdepth he hwaits hm
    cases hlookup : m.resolved.lookup e.nodeId with
    | some done =>
      obtain ⟨n, hn⟩ := hm.1 e he done hlookup
      refine ⟨m, ?_, hm⟩
      rw [guarded_of_styleWithin hd hdepth he hwaits hn, resolveFrom_succ,
        run_resolveStep_known hlookup]
    | none =>
      by_cases hpath : e.nodeId ∈ path
      · refine ⟨m, ?_, hm⟩
        rw [resolveFrom_succ, run_resolveStep_circle hlookup (hm.2 ▸ hpath), guarded, if_pos hpath]
      · have hless := remaining_cons_lt he hpath
        rw [guarded, if_neg hpath]
        exact ih.run_fresh span (by omega) (hd.fits he) hwaits hm hlookup hpath

/-- What stands for calls that nest deeper than the elements of the document does not matter. -/
theorem run_iterate_resolveStep {inner inner' : Element → Span → Evaluation Memo ResolvedStyle}
    {depth depth' : Nat} {path : List Nat} {e : Element} {span : Span} {m : Memo}
    (hdepth : d.remaining path < depth) (hdepth' : d.remaining path < depth')
    (he : e ∈ d.elements) (hm : m.inProgress = path) :
    ((d.resolveStep^[depth] inner) e span).run.run m =
        ((d.resolveStep^[depth'] inner') e span).run.run m ∧
      (((d.resolveStep^[depth] inner) e span).run.run m).2.inProgress = path := by
  induction depth generalizing depth' path e span m with
  | zero => omega
  | succ depth ih =>
    obtain ⟨depth', rfl⟩ : ∃ k, depth' = k + 1 := ⟨depth' - 1, by omega⟩
    rw [Function.iterate_succ_apply', Function.iterate_succ_apply']
    cases hlookup : m.resolved.lookup e.nodeId with
    | some done =>
      rw [run_resolveStep_known hlookup, run_resolveStep_known hlookup]
      exact ⟨rfl, hm⟩
    | none =>
      by_cases hpath : e.nodeId ∈ m.inProgress
      · rw [run_resolveStep_circle hlookup hpath, run_resolveStep_circle hlookup hpath]
        exact ⟨rfl, hm⟩
      · have hless := remaining_cons_lt he hpath
        rw [hm] at hless
        obtain ⟨q, hq⟩ := e.exists_styledBy
        have hlookups (s : Selector) (p : String) (span : Span) (m : Memo)
            (hm : m.inProgress = e.nodeId :: path) :
            (d.lookupVia (d.resolveStep^[depth] inner) s p span).run.run m =
                (d.lookupVia (d.resolveStep^[depth'] inner') s p span).run.run m ∧
              ((d.lookupVia (d.resolveStep^[depth] inner) s p span).run.run m).2.inProgress =
                e.nodeId :: path :=
          run_lookupVia_congr (fun m : Memo => m.inProgress = e.nodeId :: path) hm fun x hx =>
            ih (by omega) (by omega) (mem_elements_of_find? hx) hm
        have hquery := Query.run_congr (fun m : Memo => m.inProgress = e.nodeId :: path) hlookups q
          (m := { m with inProgress := e.nodeId :: m.inProgress }) (by rw [hm])
        rw [← hq, ← hq] at hquery
        cases hrun : (e.computeStyle (d.lookupVia (d.resolveStep^[depth] inner))).run.run
            { m with inProgress := e.nodeId :: m.inProgress } with
        | mk result after =>
          obtain ⟨heq, hafter⟩ := hquery
          have hother := heq.symm.trans hrun
          rw [run_resolveStep_fresh hlookup hpath hrun, run_resolveStep_fresh hlookup hpath hother]
          refine ⟨rfl, ?_⟩
          rw [hrun] at hafter
          rw [Memo.leave_inProgress, hafter, List.tail_cons]

end Document

end Chtl
