import Chtl.Proofs.Outcome
import Chtl.Script.Lower

/-!
# Selectors of a script

The selectors in double braces that stand in a script at any depth, in whatever addition. Lowering
fails only at one that names the own element, when there is none.
-/

set_option autoImplicit false
set_option linter.all false

namespace Chtl.Script

mutual

def Item.selectors : Item → List Selector
  | .raw _ | .arrow | .declaration _ _ => []
  | .selector s => [s]
  | .listen target handlers => target :: selectorsOfHandlers handlers
  | .delegate parent targets handlers => targets ++ parent :: selectorsOfHandlers handlers
  | .bind bindings => selectorsOfBindings bindings
  | .animate a => a.selectors

def Handler.selectors : Handler → List Selector
  | ⟨_, body, _⟩ => selectorsOf body

def Binding.selectors : Binding → List Selector
  | ⟨target, handlers⟩ => target :: selectorsOfHandlers handlers

def Animation.selectors : Animation → List Selector
  | ⟨targets, _, _, _, _, _, _, _, _, callback, _⟩ => targets ++ selectorsOfCallback callback

/-- The selectors of a script in their order. -/
def selectorsOf : List Item → List Selector
  | [] => []
  | item :: items => item.selectors ++ selectorsOf items

def selectorsOfHandlers : List Handler → List Selector
  | [] => []
  | h :: hs => h.selectors ++ selectorsOfHandlers hs

def selectorsOfBindings : List Binding → List Selector
  | [] => []
  | b :: bs => b.selectors ++ selectorsOfBindings bs

def selectorsOfCallback : Option (List Item) → List Selector
  | none => []
  | some items => selectorsOf items

end

theorem mem_selectorsOf {items : List Item} {s : Selector} :
    s ∈ selectorsOf items ↔ ∃ item ∈ items, s ∈ item.selectors := by
  induction items with
  | nil => simp [selectorsOf]
  | cons item items ih => simp [selectorsOf, ih]

theorem mem_selectorsOfHandlers {handlers : List Handler} {s : Selector} :
    s ∈ selectorsOfHandlers handlers ↔ ∃ h ∈ handlers, s ∈ selectorsOf h.body := by
  induction handlers with
  | nil => simp [selectorsOfHandlers]
  | cons h hs ih =>
    cases h
    simp [selectorsOfHandlers, Handler.selectors, ih]

theorem Animation.selectors_eq (a : Animation) :
    a.selectors = a.targets ++ selectorsOfCallback a.callback := by
  cases a
  rw [Animation.selectors]

namespace Surroundings

variable {s : Surroundings} {e : ScriptError}

theorem eq_of_css {span : Span} {target : Target} (h : s.css span target = .error e) :
    e = .missingContext span := by
  induction target with
  | own =>
    rw [css, own] at h
    split at h <;> cases h
    rfl
  | indexed base index ih => exact ih h
  | _ => cases h

theorem eq_of_lookup {sel : Selector} (h : s.lookup sel = .error e) :
    e = .missingContext sel.span := by
  unfold lookup at h
  split at h
  · rw [own] at h
    split at h <;> cases h
    rfl
  · cases h
  · cases h
  · rcases bind_eq_error_iff.mp h with h | ⟨_, _, ⟨⟩⟩
    exact eq_of_css h
  · rename_i target _ _ _ _
    cases hcss : s.css sel.span sel.target with
    | ok text =>
      rw [hcss] at h
      cases h
    | error e' =>
      rw [hcss] at h
      cases h
      exact eq_of_css hcss

theorem exists_of_mapM_error {α β : Type} {f : α → Except ScriptError β} {as : List α}
    (h : as.mapM f = .error e) : ∃ a ∈ as, f a = .error e := by
  induction as with
  | nil => cases h
  | cons a as ih =>
    rw [List.mapM_cons] at h
    rcases bind_eq_error_iff.mp h with h | ⟨b, -, h⟩
    · exact ⟨a, List.mem_cons_self, h⟩
    · rcases bind_eq_error_iff.mp h with h | ⟨_, _, ⟨⟩⟩
      obtain ⟨c, hc, herror⟩ := ih h
      exact ⟨c, List.mem_cons_of_mem a hc, herror⟩

theorem exists_of_cssList {sels : List Selector} (h : s.cssList sels = .error e) :
    ∃ sel ∈ sels, e = .missingContext sel.span := by
  rcases bind_eq_error_iff.mp h with h | ⟨_, _, ⟨⟩⟩
  obtain ⟨sel, hsel, herror⟩ := exists_of_mapM_error h
  exact ⟨sel, hsel, eq_of_css herror⟩

theorem exists_of_lookups {sels : List Selector} (h : s.lookups sels = .error e) :
    ∃ sel ∈ sels, e = .missingContext sel.span := by
  rcases bind_eq_error_iff.mp h with h | ⟨_, _, ⟨⟩⟩
  obtain ⟨sel, hsel, herror⟩ := exists_of_mapM_error h
  exact ⟨sel, hsel, eq_of_lookup herror⟩

end Surroundings

/-- The fault is that one of the selectors names an own element that is not there. -/
def Misses (sels : List Selector) (e : ScriptError) : Prop :=
  ∃ sel ∈ sels, e = .missingContext sel.span

theorem Misses.mono {sels more : List Selector} {e : ScriptError} (h : Misses sels e)
    (hmore : sels ⊆ more) : Misses more e := by
  obtain ⟨sel, hsel, he⟩ := h
  exact ⟨sel, hmore hsel, he⟩

-- One theorem for each kind of item, as for the selectors.
mutual

theorem Item.misses_of_lower {s : Surroundings} {e : ScriptError} :
    (item : Item) → item.lower s = .error e → Misses item.selectors e
  | .raw _, h | .arrow, h | .declaration _ _, h => by
    rw [Item.lower] at h
    cases h
  | .selector sel, h => by
    rw [Item.lower] at h
    rw [Item.selectors]
    exact ⟨sel, List.mem_singleton_self _, Surroundings.eq_of_lookup h⟩
  | .listen target handlers, h => by
    rw [Item.lower] at h
    rw [Item.selectors]
    rcases bind_eq_error_iff.mp h with h | ⟨_, -, h⟩
    · exact ⟨target, List.mem_cons_self, Surroundings.eq_of_lookup h⟩
    · rcases bind_eq_error_iff.mp h with h | ⟨_, _, ⟨⟩⟩
      exact (misses_of_lowerHandlers handlers h).mono (List.subset_cons_self _ _)
  | .delegate parent targets handlers, h => by
    rw [Item.lower] at h
    rw [Item.selectors]
    rcases bind_eq_error_iff.mp h with h | ⟨_, -, h⟩
    · exact Misses.mono (Surroundings.exists_of_cssList h) (List.subset_append_left _ _)
    · rcases bind_eq_error_iff.mp h with h | ⟨_, -, h⟩
      · exact ⟨parent, by simp, Surroundings.eq_of_lookup h⟩
      · rcases bind_eq_error_iff.mp h with h | ⟨_, _, ⟨⟩⟩
        refine (misses_of_lowerHandlers handlers h).mono ?_
        exact fun sel hsel => List.mem_append_right _ (List.mem_cons_of_mem _ hsel)
  | .bind bindings, h => by
    rw [Item.lower] at h
    rw [Item.selectors]
    rcases bind_eq_error_iff.mp h with h | ⟨_, _, ⟨⟩⟩
    exact misses_of_lowerBindings bindings h
  | .animate a, h => by
    rw [Item.lower] at h
    rw [Item.selectors]
    exact a.misses_of_lower h

theorem Handler.misses_of_lower {s : Surroundings} {e : ScriptError} :
    (handler : Handler) → handler.lower s = .error e → Misses handler.selectors e
  | ⟨_, body, _⟩, h => by
    rw [Handler.lower] at h
    rw [Handler.selectors]
    rcases bind_eq_error_iff.mp h with h | ⟨_, _, ⟨⟩⟩
    exact misses_of_lowerItems body h

theorem Binding.misses_of_lower {s : Surroundings} {e : ScriptError} :
    (binding : Binding) → binding.lower s = .error e → Misses binding.selectors e
  | ⟨target, handlers⟩, h => by
    rw [Binding.lower] at h
    rw [Binding.selectors]
    rcases bind_eq_error_iff.mp h with h | ⟨_, -, h⟩
    · exact ⟨target, List.mem_cons_self, Surroundings.eq_of_lookup h⟩
    · rcases bind_eq_error_iff.mp h with h | ⟨_, _, ⟨⟩⟩
      exact (misses_of_lowerHandlers handlers h).mono (List.subset_cons_self _ _)

theorem Animation.misses_of_lower {s : Surroundings} {e : ScriptError} :
    (a : Animation) → a.lower s = .error e → Misses a.selectors e
  | ⟨targets, _, _, _, _, _, _, _, _, callback, _⟩, h => by
    rw [Animation.lower] at h
    rw [Animation.selectors]
    rcases bind_eq_error_iff.mp h with h | ⟨_, -, h⟩
    · exact Misses.mono (Surroundings.exists_of_lookups h) (List.subset_append_left _ _)
    · rcases bind_eq_error_iff.mp h with h | ⟨_, _, ⟨⟩⟩
      exact (misses_of_lowerCallback callback h).mono (List.subset_append_right _ _)

theorem misses_of_lowerItems {s : Surroundings} {e : ScriptError} :
    (items : List Item) → lowerItems s items = .error e → Misses (selectorsOf items) e
  | [], h => by
    rw [lowerItems] at h
    cases h
  | item :: items, h => by
    rw [lowerItems] at h
    rw [selectorsOf]
    rcases bind_eq_error_iff.mp h with h | ⟨_, -, h⟩
    · exact (item.misses_of_lower h).mono (List.subset_append_left _ _)
    · rcases bind_eq_error_iff.mp h with h | ⟨_, _, ⟨⟩⟩
      exact (misses_of_lowerItems items h).mono (List.subset_append_right _ _)

theorem misses_of_lowerHandlers {s : Surroundings} {e : ScriptError} :
    (handlers : List Handler) → lowerHandlers s handlers = .error e →
      Misses (selectorsOfHandlers handlers) e
  | [], h => by
    rw [lowerHandlers] at h
    cases h
  | handler :: handlers, h => by
    rw [lowerHandlers] at h
    rw [selectorsOfHandlers]
    rcases bind_eq_error_iff.mp h with h | ⟨_, -, h⟩
    · exact (handler.misses_of_lower h).mono (List.subset_append_left _ _)
    · rcases bind_eq_error_iff.mp h with h | ⟨_, _, ⟨⟩⟩
      exact (misses_of_lowerHandlers handlers h).mono (List.subset_append_right _ _)

theorem misses_of_lowerBindings {s : Surroundings} {e : ScriptError} :
    (bindings : List Binding) → lowerBindings s bindings = .error e →
      Misses (selectorsOfBindings bindings) e
  | [], h => by
    rw [lowerBindings] at h
    cases h
  | binding :: bindings, h => by
    rw [lowerBindings] at h
    rw [selectorsOfBindings]
    rcases bind_eq_error_iff.mp h with h | ⟨_, -, h⟩
    · exact (binding.misses_of_lower h).mono (List.subset_append_left _ _)
    · rcases bind_eq_error_iff.mp h with h | ⟨_, _, ⟨⟩⟩
      exact (misses_of_lowerBindings bindings h).mono (List.subset_append_right _ _)

theorem misses_of_lowerCallback {s : Surroundings} {e : ScriptError} :
    (callback : Option (List Item)) → lowerCallback s callback = .error e →
      Misses (selectorsOfCallback callback) e
  | none, h => by
    rw [lowerCallback] at h
    cases h
  | some items, h => by
    rw [lowerCallback] at h
    rw [selectorsOfCallback]
    rcases bind_eq_error_iff.mp h with h | ⟨_, _, ⟨⟩⟩
    exact misses_of_lowerItems items h

end

end Chtl.Script
