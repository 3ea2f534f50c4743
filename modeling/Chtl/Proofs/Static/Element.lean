import Chtl.Proofs.Static.Item

/-!
# Elements of a static source

The items of an element are read one after the other: attributes first, then children. What is read
represents the forest it was written for: the same texts and elements, without declarations, chains
and rules.
-/

set_option autoImplicit false
set_option linter.all false

namespace Chtl.Static

open Text Markup

/-- Nodes with the texts, names and values of a forest, and nothing besides. -/
inductive Represents : Forest → List Node → Prop
  | nil : Represents .nil []
  | text {value : String} {span : Span} {rest : Forest} {nodes : List Node}
      (hrest : Represents rest nodes) : Represents (.text value rest) (.text value span :: nodes)
  | element {tag : Tag} {attributes : Attributes} {children rest : Forest} {e : Element}
      {nodes : List Node} (htag : e.tag = tag.name)
      (hattributes : e.attributes.map (fun a => (a.name, a.value)) =
        attributes.entries.map fun a => (a.1, .literal a.2))
      (hchildren : Represents children e.children)
      (hbare : e.style = [] ∧ e.chains = [] ∧ e.rules = []) (hrest : Represents rest nodes) :
      Represents (.element tag attributes children rest) (.element e :: nodes)

theorem Represents.cons_element {tag : Tag} {attributes : Attributes} {children rest : Forest}
    {e : Element} {nodes : List Node}
    (h : Represents (.element tag attributes children .nil) [.element e]) (span : Span)
    (hrest : Represents rest nodes) :
    Represents (.element tag attributes children rest)
      (.element { e with span := span } :: nodes) := by
  cases h with
  | element htag hattributes hchildren hbare _ =>
    exact .element htag hattributes hchildren hbare hrest

section

variable {s : Setting} {left : List Char}

/-- What an element does with an item whose name has been read. -/
def namedItem (limit : Nat) (e : Element) (start : Nat) (name : String) : Reader Element := do
  Reader.skipTrivia
  let next ← Reader.peek?
  if next = some ':' || next = some '=' then
    Reader.skip 1
    elementItems limit (← addAttribute e name start)
  else if next = some '{' then
    if name = "text" then elementItems limit (e.addChildren [← textBlock start])
    else if name = "if" then
      let first ← branch limit true start
      let more ← laterBranches limit
      elementItems limit (e.addChain ⟨first :: more, e.children.length⟩)
    else if name = "else" then
      Reader.fail (.unexpectedToken .element "else without if" (← Reader.spanFrom start))
    else elementItems limit (e.addChildren [.element (← element limit name start)])
  else Reader.unexpected .colonOrBrace

/-- A unit without blocks. -/
def Blockless (s : Setting) : Prop := ∀ token, s.scanned.fragment? token = none

/-- An item behind a blank is found by its name. -/
theorem reads_elementItems_named (hs : Blockless s) {name tail : List Char}
    (hname : isName name = true) (htail : ∀ c ∈ tail.head?, isNameChar c = false) {limit : Nat}
    {e : Element} {good : Element → Prop}
    (h : ∀ start, Reads s tail (namedItem limit e start (String.ofList name)) left good) :
    Reads s (' ' :: (name ++ tail)) (elementItems (limit + 1) e) left good := by
  have hlook := name?_append hname htail
  obtain ⟨c, cs, rfl, hc, -⟩ := isName_cons hname
  obtain ⟨hsolid, hstart⟩ := starts_of_isNameStart hc
  simp only [List.mem_cons, List.not_mem_nil, or_false, not_or] at hstart
  obtain ⟨hclose, hhyphen, hat, -⟩ := hstart
  rw [elementItems]
  apply (reads_skipTrivia_blank hsolid).bind
  intro _ _
  apply (Reads.eat_other (by simpa using hclose)).bind_value
  apply Reads.atEnd.bind_value
  apply Reads.offset.bind
  intro start _
  apply (Reads.looksAt _).bind_value
  rw [if_neg (Bool.eq_false_iff.mp (startsWith_cons_of_ne (Ne.symm hhyphen) _ _))]
  apply Reads.peek?.bind_value
  rw [if_neg (by simpa using hat)]
  apply (Reads.takeName hlook _).bind_value
  apply (Reads.block?_none (hs _)).bind_value
  exact h start

theorem reads_elementItems_close (limit : Nat) (e : Element) :
    Reads s (' ' :: '}' :: left) (elementItems (limit + 1) e) left (· = e) := by
  rw [elementItems]
  apply (reads_skipTrivia_blank rfl).bind
  intro _ _
  apply (Reads.eat '}').bind_value
  exact .pure rfl

variable {more : List Char} {good : Element → Prop}

theorem reads_elementItems_attribute (hs : Blockless s) {a : String × String}
    (hname : isName a.1.toList = true) (hkey : a.1 ∉ ["text", "style"]) {limit : Nat} {e : Element}
    (h : ∀ span, Reads s more (elementItems limit (e.setAttribute ⟨a.1, .literal a.2, span⟩)) left
      good) :
    Reads s (' ' :: (attributeSource a ++ more)) (elementItems (limit + 1) e) left good := by
  have htext : attributeSource a ++ more =
      a.1.toList ++ ':' :: ' ' :: (quoted a.2 ++ ';' :: more) := by
    simp [attributeSource]
  have hne : a.1 ≠ "text" := fun h => hkey (by simp [h])
  rw [htext]
  refine reads_elementItems_named hs hname (by simp; decide) fun start => ?_
  rw [String.ofList_toList]
  apply (reads_skipTrivia rfl).bind
  intro _ _
  apply Reads.peek?.bind_value
  apply (Reads.skip 1).bind
  intro _ _
  refine (reads_addAttribute e hne a.2 start).bind ?_
  rintro _ ⟨span, rfl⟩
  exact h span

theorem reads_elementItems_text (hs : Blockless s) (value : String) {limit : Nat} {e : Element}
    (h : ∀ span, Reads s more (elementItems limit (e.addChildren [.text value span])) left good) :
    Reads s (' ' :: (textSource value ++ more)) (elementItems (limit + 1) e) left good := by
  have htext : textSource value ++ more =
      "text".toList ++ ' ' :: '{' :: ' ' :: (quoted value ++ ' ' :: '}' :: more) := by
    unfold textSource
    simp
  rw [htext]
  refine reads_elementItems_named hs (by decide) (by simp; decide) fun start => ?_
  rw [String.ofList_toList]
  apply (reads_skipTrivia_blank rfl).bind
  intro _ _
  apply Reads.peek?.bind_value
  refine (reads_textBlock value start).bind ?_
  rintro _ ⟨span, rfl⟩
  exact h span

theorem reads_element (tag : String) (start : Nat) {items : List Char} {limit : Nat}
    (h : ∀ id span, Reads s (items ++ ' ' :: '}' :: left)
      (elementItems limit ⟨id, tag, [], [], [], [], [], span⟩) left good) :
    Reads s ('{' :: (items ++ ' ' :: '}' :: left)) (element (limit + 1) tag start) left
      fun e => ∃ inner span, good inner ∧ e = { inner with span := span } := by
  rw [element]
  apply Reads.freshId.bind
  intro id _
  apply (Reads.expect '{' _).bind
  intro _ _
  apply (Reads.spanFrom start).bind
  intro span _
  apply (h id span).bind
  intro inner hgood
  exact (Reads.spanFrom start).bind fun span _ => .pure ⟨inner, span, hgood, rfl⟩

theorem reads_elementItems_element (hs : Blockless s) (tag : Tag) {items : List Char} {limit : Nat}
    {e : Element} {fine : Element → Prop}
    (hinner : ∀ id span, Reads s (items ++ ' ' :: '}' :: more)
      (elementItems limit ⟨id, tag.name, [], [], [], [], [], span⟩) more fine)
    (h : ∀ inner span, fine inner → Reads s more
      (elementItems (limit + 1) (e.addChildren [.element { inner with span := span }])) left good) :
    Reads s (' ' :: (tag.name.toList ++ ' ' :: '{' :: (items ++ ' ' :: '}' :: more)))
      (elementItems (limit + 2) e) left good := by
  have hkey := tag.notKeyword
  simp only [List.mem_cons, List.not_mem_nil, or_false, not_or] at hkey
  obtain ⟨htext, hif, helse, -, -⟩ := hkey
  refine reads_elementItems_named hs tag.isName (by simp; decide) fun start => ?_
  rw [String.ofList_toList]
  apply (reads_skipTrivia_blank rfl).bind
  intro _ _
  apply Reads.peek?.bind_value
  rw [if_neg (by simp), if_pos (by simp), if_neg htext, if_neg hif, if_neg helse]
  refine (reads_element tag.name start hinner).bind ?_
  rintro _ ⟨inner, span, hfine, rfl⟩
  exact h inner span hfine

theorem setAttribute_of_fresh {e : Element} {a : Attribute} (h : e.attribute? a.name = none) :
    e.setAttribute a = { e with attributes := e.attributes ++ [a] } := by
  rw [Element.setAttribute, h]
  rfl

theorem attribute?_append_fresh {e : Element} {a : Attribute} {name : String}
    (h : e.attribute? name = none) (hne : a.name ≠ name) :
    Element.attribute? { e with attributes := e.attributes ++ [a] } name = none := by
  unfold Element.attribute? at h ⊢
  rw [List.find?_append, h]
  simpa using hne

/-- Attributes of different names are set in their order. -/
theorem reads_attributes (hs : Blockless s) {entries : List (String × String)}
    (hname : ∀ a ∈ entries, isName a.1.toList = true)
    (hkey : ∀ a ∈ entries, a.1 ∉ ["text", "style"]) (hdistinct : (entries.map (·.1)).Nodup)
    {limit : Nat} {e : Element} (hfresh : ∀ a ∈ entries, e.attribute? a.1 = none)
    (hlimit : (spaced (entries.map attributeSource) ++ more).length ≤ limit)
    (h : ∀ limit added, more.length ≤ limit →
      List.map (fun a => (a.name, a.value)) added =
        entries.map (fun a => (a.1, AttributeValue.literal a.2)) →
      Reads s more (elementItems limit { e with attributes := e.attributes ++ added }) left good) :
    Reads s (spaced (entries.map attributeSource) ++ more) (elementItems limit e) left good := by
  induction entries generalizing limit e with
  | nil =>
    cases e
    simpa [spaced] using h limit [] hlimit rfl
  | cons a entries ih =>
    obtain ⟨hnew, hdistinct⟩ := List.nodup_cons.mp hdistinct
    have htext : spaced ((a :: entries).map attributeSource) ++ more =
        ' ' :: (attributeSource a ++ (spaced (entries.map attributeSource) ++ more)) := by
      simp [spaced]
    rw [htext, List.length_cons, List.length_append] at hlimit
    obtain ⟨limit, rfl⟩ : ∃ n, limit = n + 1 := ⟨limit - 1, by omega⟩
    rw [htext]
    refine reads_elementItems_attribute hs (hname a List.mem_cons_self)
      (hkey a List.mem_cons_self) fun span => ?_
    rw [setAttribute_of_fresh (hfresh a List.mem_cons_self)]
    refine ih (fun b hb => hname b (List.mem_cons_of_mem a hb))
      (fun b hb => hkey b (List.mem_cons_of_mem a hb)) hdistinct ?_ (by omega) ?_
    · intro b hb
      refine attribute?_append_fresh (hfresh b (List.mem_cons_of_mem a hb)) ?_
      intro heq
      exact hnew (List.mem_map.mpr ⟨b, hb, heq.symm⟩)
    · intro limit added hlimit hadded
      have hmore := h limit (⟨a.1, .literal a.2, span⟩ :: added) hlimit (by simpa using hadded)
      simpa using hmore

theorem spaced_append (items more : List (List Char)) :
    spaced (items ++ more) = spaced items ++ spaced more := by
  simp [spaced]

theorem addChildren_nil (e : Element) : e.addChildren [] = e := by
  cases e
  simp [Element.addChildren]

theorem addChildren_addChildren (e : Element) (nodes more : List Node) :
    (e.addChildren nodes).addChildren more = e.addChildren (nodes ++ more) := by
  simp [Element.addChildren]

/-- An element is read with its attributes and children if the children are read. -/
theorem reads_content (hs : Blockless s) (tag : Tag) (attributes : Attributes) {children : Forest}
    {limit : Nat}
    (hlimit : (spaced (attributes.entries.map attributeSource ++ children.items) ++
      ' ' :: '}' :: left).length ≤ limit)
    (hchildren : ∀ limit e, (spaced children.items ++ ' ' :: '}' :: left).length ≤ limit →
      Reads s (spaced children.items ++ ' ' :: '}' :: left) (elementItems limit e) left
        fun e' => ∃ nodes, Represents children nodes ∧ e' = e.addChildren nodes)
    (id : Nat) (span : Span) :
    Reads s
      (spaced (attributes.entries.map attributeSource ++ children.items) ++ ' ' :: '}' :: left)
      (elementItems limit ⟨id, tag.name, [], [], [], [], [], span⟩) left
      fun e => Represents (.element tag attributes children .nil) [.element e] := by
  rw [spaced_append, List.append_assoc] at hlimit ⊢
  refine reads_attributes hs attributes.isName attributes.notKeyword attributes.distinct
    (by simp [Element.attribute?]) hlimit fun limit added hlimit hadded => ?_
  refine (hchildren limit _ hlimit).mono ?_
  rintro _ ⟨nodes, hnodes, rfl⟩
  exact Represents.element rfl hadded hnodes ⟨rfl, rfl, rfl⟩ .nil

/-- The children of an element are read as nodes that represent them. -/
theorem reads_children (hs : Blockless s) (f : Forest) {limit : Nat} {e : Element}
    (hlimit : (spaced f.items ++ ' ' :: '}' :: left).length ≤ limit) :
    Reads s (spaced f.items ++ ' ' :: '}' :: left) (elementItems limit e) left
      fun e' => ∃ nodes, Represents f nodes ∧ e' = e.addChildren nodes := by
  induction f generalizing limit e left with
  | nil =>
    obtain ⟨limit, rfl⟩ : ∃ n, limit = n + 1 := ⟨limit - 1, by simp at hlimit; omega⟩
    refine (reads_elementItems_close limit e).mono fun _ he => ⟨[], .nil, ?_⟩
    rw [he, addChildren_nil]
  | text value rest ih =>
    have htext : spaced (Forest.text value rest).items ++ ' ' :: '}' :: left =
        ' ' :: (textSource value ++ (spaced rest.items ++ ' ' :: '}' :: left)) := by
      simp [spaced, Forest.items]
    rw [htext, List.length_cons, List.length_append] at hlimit
    obtain ⟨limit, rfl⟩ : ∃ n, limit = n + 1 := ⟨limit - 1, by omega⟩
    rw [htext]
    refine reads_elementItems_text hs value fun span => ?_
    refine (ih (by omega)).mono ?_
    rintro _ ⟨nodes, hnodes, rfl⟩
    exact ⟨.text value span :: nodes, .text hnodes, addChildren_addChildren _ _ _⟩
  | element tag attributes children rest ihChildren ihRest =>
    have htext : spaced (Forest.element tag attributes children rest).items ++ ' ' :: '}' :: left =
        ' ' :: (tag.name.toList ++ ' ' :: '{' ::
          (spaced (attributes.entries.map attributeSource ++ children.items) ++
            ' ' :: '}' :: (spaced rest.items ++ ' ' :: '}' :: left))) := by
      simp [spaced, Forest.items, elementSource]
    rw [htext] at hlimit
    simp only [List.length_cons, List.length_append] at hlimit
    obtain ⟨limit, rfl⟩ : ∃ n, limit = n + 2 := ⟨limit - 2, by omega⟩
    rw [htext]
    refine reads_elementItems_element hs tag
      (reads_content hs tag attributes (by simp; omega) fun limit e => ihChildren)
      fun inner span hinner => ?_
    refine (ihRest (by simp; omega)).mono ?_
    rintro _ ⟨nodes, hnodes, rfl⟩
    exact ⟨.element { inner with span := span } :: nodes, hinner.cons_element span hnodes,
      addChildren_addChildren _ _ _⟩

end

end Chtl.Static
