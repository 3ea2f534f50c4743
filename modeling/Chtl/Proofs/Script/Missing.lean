import Chtl.Proofs.Script.Selectors

/-!
# The own element of a script

A selector that names the own element, by itself or under an index, is all that lowering can miss.
So what a construct fails with can be told from its selectors alone: it is the first of them that
names an own element which is not there.
-/

set_option autoImplicit false
set_option linter.all false

namespace Chtl.Script

/-- The fault that a step stopped with. -/
def fault? {ε α : Type} : Except ε α → Option ε
  | .ok _ => none
  | .error e => some e

theorem fault?_eq_some_iff {ε α : Type} {x : Except ε α} {e : ε} :
    fault? x = some e ↔ x = .error e := by
  cases x <;> simp [fault?]

@[simp] theorem fault?_map {ε α β : Type} (x : Except ε α) (f : α → β) :
    fault? (x.map f) = fault? x := by
  cases x <;> rfl

/-- The target is the own element, or is counted among what the own element matches. -/
def Target.isOwn : Target → Bool
  | .own => true
  | .indexed base _ => base.isOwn
  | _ => false

def Selector.isOwn (sel : Selector) : Bool := sel.target.isOwn

namespace Surroundings

/-- The fault of the first selector that names an own element which is not there. -/
def missing? (s : Surroundings) (sels : List Selector) : Option ScriptError :=
  if s.ownId = none then (sels.find? Selector.isOwn).map fun sel => .missingContext sel.span
  else none

@[simp] theorem missing?_nil (s : Surroundings) : s.missing? [] = none := by
  simp [missing?]

theorem missing?_append (s : Surroundings) (sels more : List Selector) :
    s.missing? (sels ++ more) = (s.missing? sels).or (s.missing? more) := by
  unfold missing?
  split
  · rw [List.find?_append]
    cases sels.find? Selector.isOwn <;> simp
  · rfl

theorem missing?_singleton (s : Surroundings) (sel : Selector) :
    s.missing? [sel] =
      if s.ownId = none ∧ sel.isOwn then some (.missingContext sel.span) else none := by
  unfold missing?
  cases hown : sel.isOwn <;> simp [hown]

theorem missing?_eq_some_iff {s : Surroundings} {sels : List Selector} {e : ScriptError} :
    s.missing? sels = some e ↔
      s.ownId = none ∧ ∃ sel, sels.find? Selector.isOwn = some sel ∧
        e = .missingContext sel.span := by
  unfold missing?
  split
  · rename_i hnone
    rw [Option.map_eq_some_iff]
    simp only [hnone, true_and, eq_comm]
  · rename_i hsome
    simp only [hsome, reduceCtorEq, false_and]

/-- What fails in one step or the next is the first fault of their selectors. -/
theorem fault?_bind {s : Surroundings} {α β : Type} {x : Except ScriptError α}
    {f : α → Except ScriptError β} {sels more : List Selector}
    (hx : fault? x = s.missing? sels) (hf : ∀ a, fault? (f a) = s.missing? more) :
    fault? (x >>= f) = s.missing? (sels ++ more) := by
  rw [missing?_append, ← hx]
  cases x with
  | ok a => exact hf a
  | error e => rfl

/-- A step that only puts together what was lowered adds no fault. -/
theorem fault?_bind_pure {s : Surroundings} {α β : Type} {x : Except ScriptError α} {f : α → β}
    {sels : List Selector} (hx : fault? x = s.missing? sels) :
    fault? (x >>= fun a => .ok (f a)) = s.missing? sels := by
  rw [← hx]
  cases x <;> rfl

theorem fault?_own (s : Surroundings) (span : Span) :
    fault? (s.own span) = if s.ownId = none then some (.missingContext span) else none := by
  unfold own
  cases s.ownId <;> rfl

theorem fault?_css (s : Surroundings) (span : Span) (target : Target) :
    fault? (s.css span target) =
      if s.ownId = none ∧ target.isOwn then some (.missingContext span) else none := by
  induction target with
  | own => simp [css, fault?_own, Target.isOwn]
  | indexed base index ih => rw [css, Target.isOwn, ih]
  | _ => simp [css, fault?, Target.isOwn]

theorem fault?_lookup (s : Surroundings) (sel : Selector) :
    fault? (s.lookup sel) = s.missing? [sel] := by
  rw [missing?_singleton, Selector.isOwn]
  unfold lookup
  split <;> rename_i htarget
  · simp [htarget, fault?_own, Target.isOwn]
  · simp [htarget, fault?, Target.isOwn]
  · simp [htarget, fault?, Target.isOwn]
  · rename_i base index
    rw [htarget, Target.isOwn, ← fault?_css]
    cases s.css sel.span base <;> rfl
  · rw [fault?_map, fault?_css]

theorem fault?_mapM {s : Surroundings} {α : Type} {f : Selector → Except ScriptError α}
    (hf : ∀ sel, fault? (f sel) = s.missing? [sel]) (sels : List Selector) :
    fault? (sels.mapM f) = s.missing? sels := by
  induction sels with
  | nil => simp [fault?, pure, Except.pure]
  | cons sel sels ih =>
    rw [List.mapM_cons]
    exact fault?_bind (hf sel) fun _ => fault?_bind_pure ih

theorem fault?_lookups (s : Surroundings) (sels : List Selector) :
    fault? (s.lookups sels) = s.missing? sels :=
  fault?_bind_pure (fault?_mapM (fault?_lookup s) sels)

theorem fault?_cssList (s : Surroundings) (sels : List Selector) :
    fault? (s.cssList sels) = s.missing? sels := by
  refine fault?_bind_pure (fault?_mapM (fun sel => ?_) sels)
  rw [fault?_css, missing?_singleton, Selector.isOwn]

end Surroundings

open Surroundings

-- One theorem for each kind of item, as for the selectors.
mutual

theorem Item.fault?_lower (s : Surroundings) :
    (item : Item) → fault? (item.lower s) = s.missing? item.selectors
  | .raw _ | .arrow | .declaration _ _ => by
    rw [Item.lower, Item.selectors, missing?_nil, fault?]
  | .selector sel => by
    rw [Item.lower, Item.selectors]
    exact fault?_lookup s sel
  | .listen target handlers => by
    rw [Item.lower, Item.selectors]
    exact fault?_bind (fault?_lookup s target) fun _ =>
      fault?_bind_pure (fault?_lowerHandlers s handlers)
  | .delegate parent targets handlers => by
    rw [Item.lower, Item.selectors]
    exact fault?_bind (fault?_cssList s targets) fun _ =>
      fault?_bind (fault?_lookup s parent) fun _ =>
        fault?_bind_pure (fault?_lowerHandlers s handlers)
  | .bind bindings => by
    rw [Item.lower, Item.selectors]
    exact fault?_bind_pure (fault?_lowerBindings s bindings)
  | .animate a => by
    rw [Item.lower, Item.selectors]
    exact a.fault?_lower s

theorem Handler.fault?_lower (s : Surroundings) :
    (handler : Handler) → fault? (handler.lower s) = s.missing? handler.selectors
  | ⟨_, body, _⟩ => by
    rw [Handler.lower, Handler.selectors]
    exact fault?_bind_pure (fault?_lowerItems s body)

theorem Binding.fault?_lower (s : Surroundings) :
    (binding : Binding) → fault? (binding.lower s) = s.missing? binding.selectors
  | ⟨target, handlers⟩ => by
    rw [Binding.lower, Binding.selectors]
    exact fault?_bind (fault?_lookup s target) fun _ =>
      fault?_bind_pure (fault?_lowerHandlers s handlers)

theorem Animation.fault?_lower (s : Surroundings) :
    (a : Animation) → fault? (a.lower s) = s.missing? a.selectors
  | ⟨targets, _, _, _, _, _, _, _, _, callback, _⟩ => by
    rw [Animation.lower, Animation.selectors]
    exact fault?_bind (fault?_lookups s targets) fun _ =>
      fault?_bind_pure (fault?_lowerCallback s callback)

theorem fault?_lowerItems (s : Surroundings) :
    (items : List Item) → fault? (lowerItems s items) = s.missing? (selectorsOf items)
  | [] => by rw [lowerItems, selectorsOf, missing?_nil, fault?]
  | item :: items => by
    rw [lowerItems, selectorsOf]
    exact fault?_bind (item.fault?_lower s) fun _ => fault?_bind_pure (fault?_lowerItems s items)

theorem fault?_lowerHandlers (s : Surroundings) :
    (handlers : List Handler) →
      fault? (lowerHandlers s handlers) = s.missing? (selectorsOfHandlers handlers)
  | [] => by rw [lowerHandlers, selectorsOfHandlers, missing?_nil, fault?]
  | handler :: handlers => by
    rw [lowerHandlers, selectorsOfHandlers]
    exact fault?_bind (handler.fault?_lower s) fun _ =>
      fault?_bind_pure (fault?_lowerHandlers s handlers)

theorem fault?_lowerBindings (s : Surroundings) :
    (bindings : List Binding) →
      fault? (lowerBindings s bindings) = s.missing? (selectorsOfBindings bindings)
  | [] => by rw [lowerBindings, selectorsOfBindings, missing?_nil, fault?]
  | binding :: bindings => by
    rw [lowerBindings, selectorsOfBindings]
    exact fault?_bind (binding.fault?_lower s) fun _ =>
      fault?_bind_pure (fault?_lowerBindings s bindings)

theorem fault?_lowerCallback (s : Surroundings) :
    (callback : Option (List Item)) →
      fault? (lowerCallback s callback) = s.missing? (selectorsOfCallback callback)
  | none => by rw [lowerCallback, selectorsOfCallback, missing?_nil, fault?]
  | some items => by
    rw [lowerCallback, selectorsOfCallback]
    exact fault?_bind_pure (fault?_lowerItems s items)

end

variable {items : List Item} {facts : Facts} {placeholder : Option String}

/-- The only fault of lowering is the first selector that names the own element, of a script whose
placeholder has none. -/
theorem lower_eq_error_iff {e : ScriptError} :
    lower items facts placeholder = .error e ↔
      placeholder.bind facts.context? = none ∧
        ∃ sel, (selectorsOf items).find? Selector.isOwn = some sel ∧
          e = .missingContext sel.span := by
  rw [← fault?_eq_some_iff, lower, fault?_lowerItems, missing?_eq_some_iff]

/-- Lowering fails exactly if a selector at some depth of the script names the own element and the
placeholder has none, and then with the span of such a selector. -/
theorem lower_fails_iff (items : List Item) (facts : Facts) (placeholder : Option String) :
    ((∃ e, lower items facts placeholder = .error e) ↔
      placeholder.bind facts.context? = none ∧
        ∃ sel ∈ selectorsOf items, sel.isOwn = true) ∧
    ∀ e, lower items facts placeholder = .error e →
      ∃ sel ∈ selectorsOf items, sel.isOwn = true ∧ e = .missingContext sel.span := by
  refine ⟨?_, fun e he => ?_⟩
  · simp only [lower_eq_error_iff]
    constructor
    · rintro ⟨_, hnone, sel, hfind, _⟩
      exact ⟨hnone, sel, List.mem_of_find?_eq_some hfind, List.find?_some hfind⟩
    · rintro ⟨hnone, sel, hsel, hown⟩
      obtain ⟨first, hfirst⟩ := Option.isSome_iff_exists.mp
        (List.find?_isSome.mpr ⟨sel, hsel, hown⟩)
      exact ⟨_, hnone, first, hfirst, rfl⟩
  · obtain ⟨-, sel, hfind, rfl⟩ := lower_eq_error_iff.mp he
    exact ⟨sel, List.mem_of_find?_eq_some hfind, List.find?_some hfind, rfl⟩

/-- A handler on a button animates what the own element matches, and what follows the animation asks
for the own element too. Outside any element it is the animation's selector that is missing. -/
theorem lower_fails_iff_callback :
    ∃ animation items,
      animation =
        { targets := [⟨.cls "box", ⟨20, 28⟩⟩, ⟨.indexed .own 1, ⟨30, 40⟩⟩]
          callback := some [.selector ⟨.own, ⟨50, 55⟩⟩]
          span := ⟨15, 60⟩ } ∧
      items = [.listen ⟨.tag "button", ⟨0, 10⟩⟩ [⟨"click", [.animate animation], ⟨12, 62⟩⟩]] ∧
      (∃ e, lower items {} (some "p") = .error e) ∧
      ¬ ∃ e, lower items { contexts := [("p", "a")] } (some "p") = .error e := by
  refine ⟨_, _, rfl, rfl, ?_, fun hfails => ?_⟩
  · refine (lower_fails_iff _ _ _).1.mpr ⟨rfl, ⟨.indexed .own 1, ⟨30, 40⟩⟩, ?_, rfl⟩
    simp [selectorsOf, Item.selectors, selectorsOfHandlers, Handler.selectors,
      Animation.selectors_eq]
  · cases ((lower_fails_iff _ _ _).1.mp hfails).1

end Chtl.Script
