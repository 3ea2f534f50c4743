import Chtl.Proofs.Document.Distinct
import Chtl.Proofs.Html.Accounting

/-!
# Attributes of start tags

A start tag has the literal attributes of its element, an id if one was generated, and one style
that takes in the element's own. So no name stands in it twice, as none does in the element.
-/

set_option autoImplicit false
set_option linter.all false

namespace Chtl.Html

/-- The names of the attributes that are written, in their order. -/
def Tag.names (t : Tag) : List String := t.attributes.map (·.1)

theorem name_of_writtenAttribute? {a : Attribute} {written : String × String}
    (h : writtenAttribute? a = some written) :
    a.name = written.1 ∧ a.name ≠ "style" ∧ a.value.literal? = some written.2 := by
  unfold writtenAttribute? at h
  split at h
  · rename_i value hvalue
    split_ifs at h with hstyle
    cases h
    exact ⟨rfl, hstyle, hvalue⟩
  · cases h

/-- Of the names of an element's attributes some are written. -/
theorem written_sublist (as : List Attribute) :
    ((as.filterMap writtenAttribute?).map (·.1)).Sublist (as.map (·.name)) := by
  induction as with
  | nil => exact .slnil
  | cons a as ih =>
    cases hwritten : writtenAttribute? a with
    | none =>
      rw [List.filterMap_cons_none hwritten]
      exact ih.cons _
    | some written =>
      rw [List.filterMap_cons_some hwritten, List.map_cons, List.map_cons,
        (name_of_writtenAttribute? hwritten).1]
      exact ih.cons_cons _

theorem style_not_written (as : List Attribute) :
    "style" ∉ (as.filterMap writtenAttribute?).map (·.1) := by
  intro hmem
  obtain ⟨written, hwritten, hname⟩ := List.mem_map.mp hmem
  obtain ⟨a, -, ha⟩ := List.mem_filterMap.mp hwritten
  obtain ⟨hsame, hother, -⟩ := name_of_writtenAttribute? ha
  exact hother (hsame.trans hname)

variable {e : Element} {generated : Option String}

/-- Where an id is generated, none of the element's own is written. -/
theorem id_not_written (h : e.Distinct) (hid : e.id? = none) :
    "id" ∉ (e.attributes.filterMap writtenAttribute?).map (·.1) := by
  intro hmem
  obtain ⟨written, hwritten, hname⟩ := List.mem_map.mp hmem
  obtain ⟨a, ha, hsome⟩ := List.mem_filterMap.mp hwritten
  obtain ⟨hsame, -, hvalue⟩ := name_of_writtenAttribute? hsome
  have hfound : e.attribute? "id" = some a := hname ▸ hsame ▸ h.attribute?_eq ha
  rw [Element.id?, hfound, Option.bind_some, hvalue] at hid
  cases hid

/-- A generated id comes first and the style last. -/
theorem names_startTag (e : Element) (generated : Option String) (style : StyleMap) :
    ∃ merged, (merged = [] ∨ merged = ["style"]) ∧
      (startTag e generated style).names = (generated.map fun _ => "id").toList ++
        ((e.attributes.filterMap writtenAttribute?).map (·.1) ++ merged) := by
  unfold Tag.names startTag
  dsimp only
  rw [List.append_assoc, List.map_append, List.map_append]
  split_ifs
  · exact ⟨[], .inl rfl, by cases generated <;> rfl⟩
  · exact ⟨["style"], .inr rfl, by cases generated <;> rfl⟩

theorem nodup_names_startTag (h : e.Distinct) (hgiven : GivenTo e generated) (style : StyleMap) :
    (startTag e generated style).names.Nodup := by
  obtain ⟨merged, hmerged, hnames⟩ := names_startTag e generated style
  have hwritten : ((e.attributes.filterMap writtenAttribute?).map (·.1) ++ merged).Nodup := by
    have hown := h.names.sublist (written_sublist e.attributes)
    rcases hmerged with rfl | rfl
    · rwa [List.append_nil]
    · rw [← List.concat_eq_append]
      exact hown.concat (style_not_written e.attributes)
  rw [hnames]
  cases generated with
  | none => exact hwritten
  | some id =>
    have hnew := id_not_written h hgiven.id?_eq_none
    have hlast : "id" ∉ merged := by rcases hmerged with rfl | rfl <;> simp
    rw [Option.map_some, Option.toList_some, List.singleton_append]
    exact List.nodup_cons.mpr ⟨List.not_mem_append hnew hlast, hwritten⟩

/-- No start tag of a page has two attributes with one name if no element of the document has. -/
theorem nodup_names_of_marks {d : Document} (h : ∀ e ∈ d.elements, e.Distinct)
    {start bridge : Bridge} {marks : List Mark} (hmarks : d.marks start = .ok (marks, bridge)) :
    ∀ t ∈ marks.filterMap Mark.tag?, t.names.Nodup := by
  obtain ⟨final, hrun, -⟩ := run_of_marks hmarks
  have hwalks : ∀ walk ∈ eventsOfNodes d.children, ∀ x ∈ entered walk, x ∈ d.elements :=
    fun walk hwalk x hx => mem_entered_flatten.mpr ⟨walk, hwalk, hx⟩
  have hwritten := Writes.inTurn (writes_nodes d.resolver none d.children hwalks) _ marks final hrun
  intro t ht
  obtain ⟨m, hm, htag⟩ := List.mem_filterMap.mp ht
  cases m with
  | start e generated style =>
    cases htag
    obtain ⟨he, hgiven, -⟩ := hwritten.starts e generated style hm
    exact nodup_names_startTag (h e he) hgiven style
  | wrapper id =>
    cases htag
    exact show ["id", "style"].Nodup by decide
  | _ => cases htag

/-- In a unit whose page is written, neither the elements of the document nor the start tags of the
page have two attributes with one name, and no element has two declarations with one key. -/
theorem distinct_of_generate {source : List Char} {scanned : Scanned} {d : Document} {page : Page}
    {start bridge : Bridge} (hs : scan source = .ok scanned)
    (hd : Document.ofScanned scanned = .ok d) (hg : d.generate start = .ok (page, bridge)) :
    (∀ e ∈ d.elements, e.Distinct) ∧
      ∃ marks, d.marks start = .ok (marks, bridge) ∧ page = .ofMarks marks ∧
        ∀ t ∈ marks.filterMap Mark.tag?, t.names.Nodup := by
  have hdistinct := Document.distinct_of_ofScanned hs hd
  obtain ⟨marks, hmarks, hpage⟩ := Document.marks_of_generate hg
  exact ⟨hdistinct, marks, hmarks, hpage, nodup_names_of_marks hdistinct hmarks⟩

/-- A copy with an attribute that is set twice, a key that a group of styles sets too, a class and an
id by rules, and an id that is generated since its own follows a variable. -/
theorem distinct_of_generate_copy :
    ∃ source scanned d page bridge marks, source =
        "[Template] @Style S \x7b color: red; top: 0; \x7d [Template] @Element T \x7b p \x7b ".toList ++
          "id: $box$; class: a; class: b; style: left; style \x7b @Style S; color: blue; ".toList ++
          ".c \x7b x: y; \x7d #d \x7b x: y; \x7d \x7d \x7d \x7d @Element T;".toList ∧
      scan source = .ok scanned ∧ Document.ofScanned scanned = .ok d ∧
      d.generate {} = .ok (page, bridge) ∧ d.marks {} = .ok (marks, bridge) ∧
      page = .ofMarks marks ∧
      (d.elements.map fun e => (e.attributes.map (·.name), e.style.map (·.key))) =
        [(["id", "class", "style"], ["color", "top"])] ∧
      (∀ e ∈ d.elements, e.Distinct) ∧
      (marks.filterMap Mark.tag?).map Tag.names = [["id", "class", "style"]] ∧
      ∀ t ∈ marks.filterMap Mark.tag?, t.names.Nodup := by
  obtain ⟨source, hsource⟩ : ∃ source : List Char, source =
      "[Template] @Style S \x7b color: red; top: 0; \x7d [Template] @Element T \x7b p \x7b ".toList ++
        "id: $box$; class: a; class: b; style: left; style \x7b @Style S; color: blue; ".toList ++
        ".c \x7b x: y; \x7d #d \x7b x: y; \x7d \x7d \x7d \x7d @Element T;".toList :=
    ⟨_, rfl⟩
  have hok : ∃ scanned, scan source = .ok scanned ∧ ∃ d, Document.ofScanned scanned = .ok d ∧
      (d.elements.map fun e => (e.attributes.map (·.name), e.style.map (·.key))) =
        [(["id", "class", "style"], ["color", "top"])] ∧
      ∃ r, d.generate {} = .ok r ∧ (d.marks {}).toOption.map
        (fun m => (m.1.filterMap Mark.tag?).map Tag.names) = some [["id", "class", "style"]] := by
    rw [hsource, String.toList_ofList, String.toList_ofList, String.toList_ofList]
    decide +kernel
  obtain ⟨scanned, hs, d, hd, hnames, ⟨page, bridge⟩, hg, htags⟩ := hok
  obtain ⟨hdistinct, marks, hmarks, hpage, hnodup⟩ := distinct_of_generate hs hd hg
  rw [hmarks] at htags
  exact ⟨source, scanned, d, page, bridge, marks, hsource, hs, hd, hg, hmarks, hpage, hnames,
    hdistinct, Option.some.inj htags, hnodup⟩

end Chtl.Html
