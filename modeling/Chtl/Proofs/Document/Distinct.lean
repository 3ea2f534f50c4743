import Chtl.Proofs.Markup.Building
import Mathlib.Data.List.Nodup

/-!
# Names of attributes and keys of declarations

Every step that gives an element an attribute or a declaration looks for an earlier one first. So an
element never has two attributes with one name, nor two declarations with one key, wherever they
come from.
-/

set_option autoImplicit false
set_option linter.all false

namespace Chtl

/-- No two attributes have the same name, and no two declarations the same key. -/
structure Element.Distinct (e : Element) : Prop where
  names : (e.attributes.map (·.name)).Nodup
  keys : (e.style.map (·.key)).Nodup

section

variable {α β : Type} {key : α → β} {as : List α} {a : α}

theorem map_updateFirst {p : α → Bool} {f : α → α} (h : ∀ a, p a → key (f a) = key a)
    (as : List α) : (Element.updateFirst p f as).map key = as.map key := by
  induction as with
  | nil => rfl
  | cons a as ih =>
    rw [Element.updateFirst]
    split_ifs with hp
    · rw [List.map_cons, List.map_cons, h a hp]
    · rw [List.map_cons, List.map_cons, ih]

theorem nodup_map_append_singleton (h : (as.map key).Nodup) (hnew : ∀ b ∈ as, key b ≠ key a) :
    ((as ++ [a]).map key).Nodup := by
  rw [List.map_append, List.map_singleton, ← List.concat_eq_append]
  refine h.concat fun hmem => ?_
  obtain ⟨b, hb, heq⟩ := List.mem_map.mp hmem
  exact hnew b hb heq

end

namespace Element

variable {e : Element}

theorem attribute?_isSome_iff {name : String} :
    (e.attribute? name).isSome ↔ ∃ a ∈ e.attributes, a.name = name := by
  simp [attribute?, List.find?_isSome]

theorem name_appendClass (name : String) (a : Attribute) : (appendClass name a).name = a.name := by
  unfold appendClass
  split <;> rfl

namespace Distinct

/-- An attribute is found by its name. -/
theorem attribute?_eq (h : e.Distinct) {a : Attribute} (ha : a ∈ e.attributes) :
    e.attribute? a.name = some a := by
  obtain ⟨b, hb⟩ := Option.isSome_iff_exists.mp (attribute?_isSome_iff.mpr ⟨a, ha, rfl⟩)
  have hname : b.name = a.name := by simpa using List.find?_some hb
  rw [hb, List.inj_on_of_nodup_map h.names (List.mem_of_find?_eq_some hb) ha hname]

/-- Changes that leave the names as they are. -/
theorem updateAttributes (h : e.Distinct) {p : Attribute → Bool} {f : Attribute → Attribute}
    (hf : ∀ a, p a → (f a).name = a.name) :
    Element.Distinct { e with attributes := updateFirst p f e.attributes } where
  names := by rw [map_updateFirst hf]; exact h.names
  keys := h.keys

/-- An attribute with a name that is not there yet. -/
theorem append (h : e.Distinct) {a : Attribute} (ha : ¬ (e.attribute? a.name).isSome) :
    Element.Distinct { e with attributes := e.attributes ++ [a] } where
  names := nodup_map_append_singleton h.names fun b hb hname =>
    ha (attribute?_isSome_iff.mpr ⟨b, hb, hname⟩)
  keys := h.keys

theorem setAttribute (h : e.Distinct) (a : Attribute) : (e.setAttribute a).Distinct := by
  unfold Element.setAttribute
  split_ifs with hfound
  · exact h.updateAttributes fun b hb => (beq_iff_eq.mp hb).symm
  · exact h.append hfound

theorem addClass (h : e.Distinct) (name : String) : (e.addClass name).Distinct := by
  unfold Element.addClass
  split_ifs with _ hfound
  · exact h
  · exact h.updateAttributes fun b _ => name_appendClass name b
  · exact h.append hfound

theorem setIdIfAbsent (h : e.Distinct) (id : String) : (e.setIdIfAbsent id).Distinct := by
  unfold Element.setIdIfAbsent
  split_ifs with hfound
  · exact h
  · exact h.append hfound

theorem addRule (h : e.Distinct) (rule : StyleRule) : (e.addRule rule).Distinct := by
  have hrules {e : Element} (h : e.Distinct) :
      Element.Distinct { e with rules := e.rules ++ [rule] } := ⟨h.names, h.keys⟩
  unfold Element.addRule
  split
  · exact hrules (h.addClass _)
  · exact hrules (h.setIdIfAbsent _)
  · exact hrules h

theorem setDeclaration (h : e.Distinct) (d : StyleDeclaration) : (e.setDeclaration d).Distinct := by
  unfold Element.setDeclaration
  split_ifs with hfound
  · have hkeys : (updateFirst (·.key == d.key) (fun _ => d) e.style).map (·.key) =
        e.style.map (·.key) := by
      refine map_updateFirst (fun b hb => ?_) e.style
      exact (beq_iff_eq.mp hb).symm
    exact ⟨h.names, hkeys ▸ h.keys⟩
  · refine ⟨h.names, nodup_map_append_singleton h.keys fun b hb hkey => hfound ?_⟩
    exact List.any_eq_true.mpr ⟨b, hb, beq_iff_eq.mpr hkey⟩

theorem renumber (h : e.Distinct) (next : Nat) : (e.renumber next).1.Distinct := by
  cases e
  exact ⟨h.names, h.keys⟩

end Distinct

end Element

theorem kept_distinct (asked : Asked) : Kept asked Element.Distinct where
  opened _ _ _ _ _ := ⟨List.nodup_nil, List.nodup_nil⟩
  closed _ _ _ h := ⟨h.names, h.keys⟩
  addChildren _ _ h := ⟨h.names, h.keys⟩
  setAttribute _ a _ _ h := h.setAttribute a
  setDeclaration _ d _ _ h := h.setDeclaration d
  addRule _ r h := h.addRule r
  addChain _ _ h _ _ := ⟨h.names, h.keys⟩
  renumber _ next h := h.renumber next

/-- In every element of a document, copies of templates included, names and keys are distinct. -/
theorem Document.distinct_of_ofScanned {source : List Char} {scanned : Scanned} {d : Document}
    (hs : scan source = .ok scanned) (h : ofScanned scanned = .ok d) :
    ∀ e ∈ d.elements, e.Distinct :=
  fun _ he => kept_of_ofScanned hs (kept_distinct _) h he

end Chtl
