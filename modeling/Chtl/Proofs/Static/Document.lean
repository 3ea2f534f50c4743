import Chtl.Proofs.Fragment.Tiling
import Chtl.Proofs.Static.Element

/-!
# Reading a static source

The nodes at the root are read like the children of an element, with a blank between each two. So
the source of a forest is read as a document that represents it.
-/

set_option autoImplicit false
set_option linter.all false

namespace Chtl.Static

open Text Markup

section

variable {s : Setting} {left more : List Char}

/-- What is done at the root with an item whose name has been read. -/
def namedRootItem (limit start : Nat) (name : String) : Reader (List Node) := do
  Reader.skipTrivia
  if (← Reader.peek?) = some '{' then
    if name = "text" then return [← textBlock start]
    else return [.element (← element limit name start)]
  else Reader.unexpected .openBrace

theorem reads_rootItem_named (hs : Blockless s) {name tail : List Char}
    (hname : isName name = true) (htail : ∀ c ∈ tail.head?, isNameChar c = false) {limit : Nat}
    {fine : List Node → Prop}
    (h : ∀ start, Reads s tail (namedRootItem limit start (String.ofList name)) left fine) :
    Reads s (name ++ tail) (rootItem limit) left fine := by
  have hlook := name?_append hname htail
  obtain ⟨c, cs, rfl, hc, -⟩ := isName_cons hname
  obtain ⟨-, hstart⟩ := starts_of_isNameStart hc
  simp only [List.mem_cons, List.not_mem_nil, or_false, not_or] at hstart
  obtain ⟨-, hhyphen, hat, hbracket⟩ := hstart
  apply Reads.offset.bind
  intro start _
  apply (Reads.looksAt _).bind_value
  rw [List.cons_append,
    if_neg (Bool.eq_false_iff.mp (startsWith_cons_of_ne (Ne.symm hhyphen) _ _))]
  apply Reads.peek?.bind_value
  rw [if_neg (by simpa using hbracket)]
  apply Reads.peek?.bind_value
  rw [if_neg (by simpa using hat)]
  apply (Reads.takeName hlook _).bind_value
  apply (Reads.block?_none (hs _)).bind_value
  exact h start

theorem reads_rootItem_text (hs : Blockless s) (value : String) (limit : Nat) :
    Reads s (textSource value ++ left) (rootItem limit) left
      fun nodes => ∃ span, nodes = [.text value span] := by
  have htext : textSource value ++ left =
      "text".toList ++ ' ' :: '{' :: ' ' :: (quoted value ++ ' ' :: '}' :: left) := by
    unfold textSource
    simp
  rw [htext]
  refine reads_rootItem_named hs (by decide) (by simp; decide) fun start => ?_
  rw [String.ofList_toList]
  apply (reads_skipTrivia_blank rfl).bind
  intro _ _
  apply Reads.peek?.bind_value
  refine (reads_textBlock value start).bind ?_
  rintro _ ⟨span, rfl⟩
  exact .pure ⟨span, rfl⟩

theorem reads_rootItem_element (hs : Blockless s) (tag : Tag) (attributes : Attributes)
    (children : Forest) {limit : Nat}
    (hlimit : (elementSource tag.name (attributes.entries.map attributeSource ++ children.items) ++
      left).length ≤ limit) :
    Reads s (elementSource tag.name (attributes.entries.map attributeSource ++ children.items) ++
        left) (rootItem limit) left
      fun nodes => ∃ e span, Represents (.element tag attributes children .nil) [.element e] ∧
        nodes = [.element { e with span := span }] := by
  have htext : elementSource tag.name (attributes.entries.map attributeSource ++ children.items) ++
      left = tag.name.toList ++ ' ' :: '{' ::
        (spaced (attributes.entries.map attributeSource ++ children.items) ++
          ' ' :: '}' :: left) := by
    simp [elementSource]
  have hne : tag.name ≠ "text" := fun h => tag.notKeyword (by simp [h])
  rw [htext] at hlimit
  simp only [List.length_cons, List.length_append] at hlimit
  obtain ⟨limit, rfl⟩ : ∃ n, limit = n + 1 := ⟨limit - 1, by omega⟩
  rw [htext]
  refine reads_rootItem_named hs tag.isName (by simp; decide) fun start => ?_
  rw [String.ofList_toList]
  apply (reads_skipTrivia_blank rfl).bind
  intro _ _
  apply Reads.peek?.bind_value
  rw [if_pos (by simp), if_neg hne]
  refine (reads_element tag.name start (reads_content hs tag attributes (by simp; omega)
    fun limit e => reads_children hs children)).bind ?_
  rintro _ ⟨e, span, he, rfl⟩
  exact .pure ⟨e, span, he, rfl⟩

/-- An item at the root is found behind a blank or without one, and the items go on behind it. -/
theorem reads_rootItems_cons {item text : List Char}
    (hitem : ∃ c cs, item = c :: cs ∧ isNameStart c = true)
    (htext : text = item ∨ text = ' ' :: item) {limit : Nat} {nodes : List Node}
    {good fine : List Node → Prop} (hread : Reads s item (rootItem limit) more fine)
    (h : ∀ added, fine added → Reads s more (rootItems limit (nodes ++ added)) left good) :
    Reads s text (rootItems (limit + 1) nodes) left good := by
  obtain ⟨c, cs, rfl, hc⟩ := hitem
  obtain ⟨hsolid, -⟩ := starts_of_isNameStart hc
  have hskip : Reads s text Reader.skipTrivia (c :: cs) fun _ => True := by
    rcases htext with rfl | rfl
    · exact reads_skipTrivia hsolid
    · exact reads_skipTrivia_blank hsolid
  rw [rootItems]
  apply hskip.bind
  intro _ _
  apply Reads.atEnd.bind_value
  exact hread.bind h

theorem spaced_cons (item : List Char) (items : List (List Char)) :
    spaced (item :: items) = ' ' :: (item ++ spaced items) := by
  simp [spaced]

/-- The source of a forest is read as nodes that represent it. -/
theorem reads_rootItems (hs : Blockless s) (f : Forest) {text : List Char}
    (htext : text = f.source ∨ text = spaced f.items) {limit : Nat} (hlimit : text.length < limit)
    (nodes : List Node) :
    Reads s text (rootItems limit nodes) []
      fun result => ∃ added, Represents f added ∧ result = nodes ++ added := by
  obtain ⟨limit, rfl⟩ : ∃ n, limit = n + 1 := ⟨limit - 1, by omega⟩
  induction f generalizing text limit nodes with
  | nil =>
    obtain rfl : text = [] := by simpa [Forest.source, Forest.items, spaced] using htext
    have hskip : Reads s [] Reader.skipTrivia _ _ := Reads.skipTrivia
    rw [List.drop_nil] at hskip
    rw [rootItems]
    apply hskip.bind
    intro _ _
    apply Reads.atEnd.bind_value
    rw [if_pos (by simp)]
    exact .pure ⟨[], .nil, by simp⟩
  | text value rest ih =>
    rw [Forest.source, Forest.items, intercalate_cons, spaced_cons] at htext
    have hlength : (textSource value).length + (spaced rest.items).length ≤ text.length := by
      rcases htext with rfl | rfl <;> simp
    have hitem : 0 < (textSource value).length := by
      unfold textSource
      simp
    obtain ⟨limit, rfl⟩ : ∃ n, limit = n + 1 := ⟨limit - 1, by omega⟩
    refine reads_rootItems_cons ⟨'t', _, rfl, rfl⟩ htext (reads_rootItem_text hs value _) ?_
    rintro _ ⟨span, rfl⟩
    refine (ih (.inr rfl) _ limit (by omega)).mono ?_
    rintro _ ⟨added, hadded, rfl⟩
    exact ⟨.text value span :: added, .text hadded, by simp⟩
  | element tag attributes children rest _ ih =>
    rw [Forest.source, Forest.items, intercalate_cons, spaced_cons] at htext
    have hlength : (elementSource tag.name
        (attributes.entries.map attributeSource ++ children.items) ++
          spaced rest.items).length ≤ text.length := by
      rcases htext with rfl | rfl <;> simp
    have hitem : 0 < (elementSource tag.name
        (attributes.entries.map attributeSource ++ children.items)).length := by
      simp only [elementSource, List.length_append, List.length_cons]
      omega
    have hsum := hlength
    rw [List.length_append] at hsum
    obtain ⟨limit, rfl⟩ : ∃ n, limit = n + 1 := ⟨limit - 1, by omega⟩
    obtain ⟨c, cs, hname, hc, -⟩ := isName_cons tag.isName
    refine reads_rootItems_cons ⟨c, _, by rw [elementSource, hname]; rfl, hc⟩ htext
      (reads_rootItem_element hs tag attributes children (by omega)) ?_
    rintro _ ⟨e, span, he, rfl⟩
    refine (ih (.inr rfl) _ limit (by omega)).mono ?_
    rintro _ ⟨added, hadded, rfl⟩
    exact ⟨.element { e with span := span } :: added, he.cons_element span hadded, by simp⟩

end

/-- A static source is read as a document that represents its forest. -/
theorem ofScanned_source {scanned : Scanned} {f : Forest} (hmarkup : scanned.markup = f.source)
    (hblocks : ∀ g ∈ scanned.fragments, g.placeholder = none) :
    ∃ document, Document.ofScanned scanned = .ok document ∧ Represents f document.children := by
  have hs : Blockless { scanned := scanned, origin := .markup scanned } := by
    intro token
    refine Scanned.fragment?_eq_none_iff.mpr fun g hg => ?_
    simp [hblocks g hg]
  obtain ⟨nodes, progress, hrun, -, -, added, hadded, hnodes⟩ :=
    reads_rootItems hs f (.inl hmarkup) (show _ < 2 * scanned.markup.length + 2 by omega) []
      { cursor := { rest := scanned.markup } } rfl ⟨rfl, rfl⟩
  rw [List.nil_append] at hnodes
  subst hnodes
  refine ⟨⟨nodes, progress.consumed⟩, ?_, hadded⟩
  unfold Document.ofScanned
  dsimp only
  rw [hrun]

end Chtl.Static
