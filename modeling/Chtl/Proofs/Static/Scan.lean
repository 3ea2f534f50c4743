import Chtl.Fragment.Scan
import Chtl.Proofs.Fragment.Passes
import Chtl.Proofs.Static.Forest

/-!
# A static source is markup

Literals hide whatever they hold, and the names of a forest are no keywords of blocks. So the source
of a forest is one piece of markup, without a placeholder.
-/

set_option autoImplicit false
set_option linter.all false

namespace Chtl.Static

open Text Piece

theorem passes_quoted {previous : Option Char} (h : opensString previous = true) (s : String) :
    Passes previous (quoted s) (some '"') := by
  intro offset rest
  rw [quoted_append, cutFrom, if_pos ⟨.inl rfl, h⟩, escaped, stringLength_escaped, ← escaped]
  dsimp only
  rw [cons_take_escaped, drop_escaped, getLast?_quoted]

theorem isName_cons {name : List Char} (h : isName name = true) :
    ∃ c cs, name = c :: cs ∧ isNameStart c = true ∧ ∀ d ∈ cs, isNameChar d = true := by
  cases name with
  | nil => cases h
  | cons c cs =>
    simp only [isName, Bool.and_eq_true, List.all_eq_true] at h
    exact ⟨c, cs, rfl, h⟩

theorem passes_attribute (previous : Option Char) {a : String × String}
    (h : isName a.1.toList = true) : Passes previous (attributeSource a) (some ';') := by
  obtain ⟨c, cs, hname, hc, hcs⟩ := isName_cons h
  have hpass :
      Passes previous ((c :: cs ++ [':']) ++ ([' '] ++ (quoted a.2 ++ [';']))) (some ';') := by
    refine (Passes.name previous hc hcs (by decide) (.inr (by decide))).append ?_
    refine (Passes.punctuation _ (by decide)).append ?_
    exact (passes_quoted rfl a.2).append (.punctuation _ (by decide))
  simpa [attributeSource, hname] using hpass

theorem passes_text (previous : Option Char) (value : String) :
    Passes previous (textSource value) (some '}') := by
  have htail : ∀ d ∈ ['e', 'x', 't'], isNameChar d = true := List.all_eq_true.mp rfl
  change Passes previous (('t' :: ['e', 'x', 't'] ++ [' ']) ++
    (['{'] ++ ([' '] ++ (quoted value ++ ([' '] ++ ['}']))))) (some '}')
  refine (Passes.name previous (by decide) htail (by decide) (.inl (by decide))).append ?_
  refine (Passes.punctuation _ (by decide)).append ?_
  refine (Passes.punctuation _ (by decide)).append ?_
  refine (passes_quoted rfl value).append ?_
  exact (Passes.punctuation _ (by decide)).append (.punctuation _ (by decide))

theorem passes_spaced (previous : Option Char) {items : List (List Char)}
    (h : ∀ item ∈ items, ∃ last, Passes (some ' ') item last) :
    ∃ last, Passes previous (spaced items) last := by
  induction items generalizing previous with
  | nil => exact ⟨previous, .nil previous⟩
  | cons item items ih =>
    obtain ⟨middle, hitem⟩ := h item List.mem_cons_self
    obtain ⟨last, hitems⟩ := ih middle fun i hi => h i (List.mem_cons_of_mem item hi)
    refine ⟨last, ?_⟩
    have hpass := ((Passes.punctuation previous (by decide)).append hitem).append hitems
    simpa [spaced] using hpass

theorem passes_element (previous : Option Char) (tag : Tag) {items : List (List Char)}
    (h : ∀ item ∈ items, ∃ last, Passes (some ' ') item last) :
    Passes previous (elementSource tag.name items) (some '}') := by
  obtain ⟨c, cs, hname, hc, hcs⟩ := isName_cons tag.isName
  have hk : c :: cs ≠ "style".toList ∧ c :: cs ≠ "script".toList := by
    rw [← hname]
    constructor
    · intro hstyle
      exact tag.notKeyword (by simp [String.toList_inj.mp hstyle])
    · intro hscript
      exact tag.notKeyword (by simp [String.toList_inj.mp hscript])
  obtain ⟨last, hitems⟩ := passes_spaced (some '{') h
  have hpass : Passes previous ((c :: cs ++ [' ']) ++
      (['{'] ++ (spaced items ++ ([' '] ++ ['}'])))) (some '}') := by
    refine (Passes.name previous hc hcs (by decide) (.inl hk)).append ?_
    refine (Passes.punctuation _ (by decide)).append ?_
    refine hitems.append ?_
    exact (Passes.punctuation _ (by decide)).append (.punctuation _ (by decide))
  simpa [elementSource, hname] using hpass

/-- Every node of a forest passes, wherever it stands. -/
theorem passes_items (f : Forest) (previous : Option Char) :
    ∀ item ∈ f.items, Passes previous item (some '}') := by
  induction f generalizing previous with
  | nil => simp [Forest.items]
  | text value rest ih =>
    intro item hitem
    rcases List.mem_cons.mp hitem with rfl | hitem
    · exact passes_text previous value
    · exact ih previous item hitem
  | element tag attributes children rest ihChildren ihRest =>
    intro item hitem
    rcases List.mem_cons.mp hitem with rfl | hitem
    · refine passes_element previous tag fun inner hinner => ?_
      rcases List.mem_append.mp hinner with hinner | hinner
      · obtain ⟨a, ha, rfl⟩ := List.mem_map.mp hinner
        exact ⟨_, passes_attribute _ (attributes.isName a ha)⟩
      · exact ⟨_, ihChildren _ inner hinner⟩
    · exact ihRest previous item hitem

theorem intercalate_cons (item : List Char) (items : List (List Char)) :
    List.intercalate [' '] (item :: items) = item ++ spaced items := by
  induction items generalizing item with
  | nil => simp [List.intercalate, spaced]
  | cons next items ih =>
    rw [List.intercalate_cons_cons, ih]
    simp [spaced]

theorem passes_source (f : Forest) : ∃ last, Passes none f.source last := by
  have hitems := passes_items f
  unfold Forest.source
  cases hf : f.items with
  | nil => exact ⟨none, .nil none⟩
  | cons item items =>
    rw [hf] at hitems
    obtain ⟨last, hrest⟩ := passes_spaced (some '}') fun i hi =>
      ⟨some '}', hitems (some ' ') i (List.mem_cons_of_mem item hi)⟩
    rw [intercalate_cons]
    exact ⟨last, (hitems none item List.mem_cons_self).append hrest⟩

/-- The source of a forest is scanned as markup alone. -/
theorem scan_source (f : Forest) :
    ∃ scanned, scan f.source = .ok scanned ∧ scanned.markup = f.source ∧
      ∀ g ∈ scanned.fragments, g.placeholder = none := by
  obtain ⟨last, hpass⟩ := passes_source f
  have hcut : cut f.source = .ok (consMarkup f.source []) := by
    have hall := hpass 0 []
    rw [List.append_nil, cutFrom] at hall
    exact hall
  refine ⟨_, by rw [scan, hcut], ?_, ?_⟩
  · cases hs : f.source <;> simp [Scanned.markup, consMarkup, Scanned.assemble, Fragment.image]
  · cases hs : f.source <;> simp [consMarkup, Scanned.assemble]

end Chtl.Static
