import Chtl.Html.Generate
import Chtl.Proofs.Bridge.Table
import Chtl.Proofs.Html.Ids
import Chtl.Proofs.Outcome

/-!
# What marks leave in the state of a generation

While a page is written its marks account for everything that is recorded: ids are allocated for
start tags, and facts name the elements whose start tags are written. Runs one after the other are
accounted for by their marks one after the other.
-/

set_option autoImplicit false
set_option linter.all false

namespace Chtl.Html

section

variable {attributes : List Attribute} {name : String}

theorem lookup_other {a : Attribute} (h : a.name ≠ name) (more : List (String × String)) :
    ((a :: attributes).filterMap writtenAttribute? ++ more).lookup name =
      (attributes.filterMap writtenAttribute? ++ more).lookup name := by
  cases hwritten : writtenAttribute? a with
  | none => rw [List.filterMap_cons_none hwritten]
  | some written =>
    have hname : written.1 = a.name := by
      unfold writtenAttribute? at hwritten
      split at hwritten
      · split_ifs at hwritten
        cases hwritten
        rfl
      · cases hwritten
    have hne : (name == written.1) = false := by
      rw [hname]
      simpa using Ne.symm h
    rw [List.filterMap_cons_some hwritten, List.cons_append, List.lookup_cons, hne]

/-- A literal attribute is written with its value, if it is the first of its name. -/
theorem lookup_written {value : String} (hname : name ≠ "style")
    (h : (attributes.find? (·.name == name)).bind (·.value.literal?) = some value)
    (more : List (String × String)) :
    (attributes.filterMap writtenAttribute? ++ more).lookup name = some value := by
  induction attributes with
  | nil => cases h
  | cons a attributes ih =>
    by_cases ha : a.name = name
    · rw [List.find?_cons_of_pos (by simpa using ha), Option.bind_some] at h
      have hwritten : writtenAttribute? a = some (name, value) := by
        rw [writtenAttribute?, h]
        dsimp only
        rw [ha, if_neg hname]
      rw [List.filterMap_cons_some hwritten]
      simp
    · rw [List.find?_cons_of_neg (by simpa using ha)] at h
      rw [lookup_other ha]
      exact ih h

theorem lookup_unwritten (h : attributes.find? (·.name == name) = none)
    (more : List (String × String)) :
    (attributes.filterMap writtenAttribute? ++ more).lookup name = more.lookup name := by
  induction attributes with
  | nil => rfl
  | cons a attributes ih =>
    have ha : a.name ≠ name := by simpa using (List.find?_eq_none.mp h) a List.mem_cons_self
    rw [List.find?_cons_of_neg (by simpa using ha)] at h
    rw [lookup_other ha]
    exact ih h

end

/-- An element gets a generated id exactly if it needs one and has none. -/
def GivenTo (e : Element) (generated : Option String) : Prop :=
  if e.id?.isSome then generated = none else generated.isSome = needsId e

theorem GivenTo.isSome_of_needsId {e : Element} {generated : Option String}
    (h : GivenTo e generated) (hneeds : needsId e = true) : (e.id?.or generated).isSome := by
  cases hid : e.id? with
  | some own => rfl
  | none =>
    rw [GivenTo, hid] at h
    exact h.trans hneeds

/-- Only an element without an id gets one. -/
theorem GivenTo.id?_eq_none {e : Element} {id : String} (h : GivenTo e (some id)) :
    e.id? = none := by
  cases hid : e.id? with
  | none => rfl
  | some own => simp [GivenTo, hid] at h

theorem needsId_iff (e : Element) : needsId e = true ↔
    (∃ a ∈ e.attributes, a.value.literal? = none) ∨
    (∃ d ∈ e.style, d.value.isResponsive = true) ∨ e.chains.any Chain.isDynamic = true ∨
    (∃ n ∈ e.children, needsId.isScript n = true) ∨
    (∃ r ∈ e.rules, '&' ∈ r.selector.toList) ∧ e.classes = [] := by
  simp [needsId, or_assoc]

/-- The id that a page finds an element by is its own or the generated one. -/
theorem id?_startTag {e : Element} {generated : Option String} (h : GivenTo e generated)
    (style : StyleMap) : (startTag e generated style).id? = e.id?.or generated := by
  unfold Tag.id? startTag
  dsimp only
  rw [List.append_assoc]
  cases generated with
  | some id =>
    simp [h.id?_eq_none]
  | none =>
    cases hid : e.id? with
    | some own => exact lookup_written (by decide) hid _
    | none =>
      -- Without an id an element with other than literal attributes would have got one.
      have hneeds : needsId e = false := by
        rw [GivenTo, hid] at h
        exact h.symm
      have hnone : e.attributes.find? (·.name == "id") = none := by
        rw [List.find?_eq_none]
        intro a ha hname
        have hsome : (e.attribute? "id").isSome := List.find?_isSome.mpr ⟨a, ha, hname⟩
        obtain ⟨first, hfirst⟩ := Option.isSome_iff_exists.mp hsome
        have hliteral : first.value.literal? = none := by
          simpa [Element.id?, hfirst] using hid
        have hneeded : needsId e = true :=
          (needsId_iff e).mpr (.inl ⟨first, List.mem_of_find?_eq_some hfirst, hliteral⟩)
        rw [hneeded] at hneeds
        cases hneeds
      rw [Option.map_none, Option.toList_none, List.nil_append, lookup_unwritten hnone]
      split_ifs <;> rfl

namespace Mark

/-- The value of the id attribute of a start tag. -/
def id? (m : Mark) : Option String := m.tag?.bind Tag.id?

def generated? : Mark → Option String
  | start _ generated _ => generated
  | wrapper id => some id
  | _ => none

def wrapper? : Mark → Option String
  | wrapper id => some id
  | _ => none

/-- What follows variables in an element that begins. -/
def bindings : Mark → List (String × ResponsiveBinding)
  | start e generated _ =>
    match e.id?.or generated with
    | some id => responsiveBindings e id
    | none => []
  | _ => []

/-- A script in an element, with the id of the element. -/
def context? : Mark → Option (String × String)
  | placeholder p .script (some id) => some (p.token, id)
  | _ => none

/-- The element around a placeholder. -/
def parent? : Mark → Option String
  | placeholder _ _ parent => parent
  | _ => none

end Mark

/-- The values of the id attributes of start tags. -/
def ids (marks : List Mark) : List String := marks.filterMap Mark.id?

def generatedIds (marks : List Mark) : List String := marks.filterMap Mark.generated?

/-- The marks account for the change of the state, where ids in `around` belong to elements that
began before. -/
structure Recorded (around : List String) (s : GenState) (marks : List Mark) (s' : GenState) :
    Prop where
  responsive : s'.bridge.facts.responsive =
    s.bridge.facts.responsive.pushAll (marks.flatMap Mark.bindings)
  conditionals : ∃ new, s'.bridge.facts.conditionals = s.bridge.facts.conditionals ++ new ∧
    ∀ b ∈ new, b.elementId ∈ around ++ ids marks
  renderings : s'.bridge.facts.renderings.map (·.wrapperId) =
    s.bridge.facts.renderings.map (·.wrapperId) ++ marks.filterMap Mark.wrapper?
  contexts : s'.bridge.facts.contexts =
    s.bridge.facts.contexts.insertAll (marks.filterMap Mark.context?)
  parents : ∀ id ∈ marks.filterMap Mark.parent?, id ∈ around ++ ids marks
  taken : s'.ids.taken = (generatedIds marks).reverse ++ s.ids.taken
  fresh : (generatedIds marks).Nodup ∧ ∀ id ∈ generatedIds marks, id ∉ s.ids.taken
  spelled : ∀ id ∈ generatedIds marks, ∃ stem n, id = IdPool.idText stem n

namespace Recorded

variable {around wider : List String} {s s' s'' : GenState} {marks more : List Mark}

theorem mono (h : Recorded around s marks s') (hsub : around ⊆ wider) :
    Recorded wider s marks s' := by
  have hwider : around ++ ids marks ⊆ wider ++ ids marks :=
    List.append_subset.mpr ⟨List.Subset.trans hsub (List.subset_append_left _ _),
      List.subset_append_right _ _⟩
  obtain ⟨new, hnew, hids⟩ := h.conditionals
  exact { h with
    conditionals := ⟨new, hnew, fun b hb => hwider (hids b hb)⟩
    parents := fun id hid => hwider (h.parents id hid) }

/-- What is recorded later may be about elements that began in the meantime. -/
theorem seq (h : Recorded around s marks s') (h' : Recorded (around ++ ids marks) s' more s'') :
    Recorded around s (marks ++ more) s'' := by
  have hids : ids (marks ++ more) = ids marks ++ ids more := List.filterMap_append
  have hgenerated : generatedIds (marks ++ more) = generatedIds marks ++ generatedIds more :=
    List.filterMap_append
  have hearlier : around ++ ids marks ⊆ around ++ ids (marks ++ more) := by
    rw [hids, ← List.append_assoc]
    exact List.subset_append_left _ _
  have hlater : around ++ ids marks ++ ids more ⊆ around ++ ids (marks ++ more) := by
    rw [hids, List.append_assoc]
    exact List.Subset.refl _
  constructor
  · rw [h'.responsive, h.responsive, List.flatMap_append, Table.pushAll_append]
  · obtain ⟨new, hnew, hown⟩ := h.conditionals
    obtain ⟨new', hnew', hown'⟩ := h'.conditionals
    refine ⟨new ++ new', by rw [hnew', hnew, List.append_assoc], ?_⟩
    intro b hb
    rcases List.mem_append.mp hb with hb | hb
    · exact hearlier (hown b hb)
    · exact hlater (hown' b hb)
  · rw [h'.renderings, h.renderings, List.filterMap_append, List.append_assoc]
  · rw [h'.contexts, h.contexts, List.filterMap_append, Table.insertAll_append]
  · intro id hid
    rw [List.filterMap_append] at hid
    rcases List.mem_append.mp hid with hid | hid
    · exact hearlier (h.parents id hid)
    · exact hlater (h'.parents id hid)
  · rw [h'.taken, h.taken, hgenerated, List.reverse_append, List.append_assoc]
  · have hapart : ∀ id ∈ generatedIds more, id ∉ generatedIds marks ∧ id ∉ s.ids.taken := by
      intro id hid
      have hnew := h'.fresh.2 id hid
      rw [h.taken] at hnew
      simpa using hnew
    rw [hgenerated]
    refine ⟨?_, ?_⟩
    · refine List.nodup_append'.mpr ⟨h.fresh.1, h'.fresh.1, ?_⟩
      intro id hid hid'
      exact (hapart id hid').1 hid
    · intro id hid
      rcases List.mem_append.mp hid with hid | hid
      · exact h.fresh.2 id hid
      · exact (hapart id hid).2
  · rw [hgenerated]
    exact List.forall_mem_append.mpr ⟨h.spelled, h'.spelled⟩

/-- Nothing of this changes. -/
theorem quiet (around : List String) (hfacts : s'.bridge.facts = s.bridge.facts)
    (hids : s'.ids = s.ids) : Recorded around s [] s' := by
  constructor <;> simp [hfacts, hids, ids, generatedIds, Table.pushAll, Table.insertAll]

/-- Marks other than start tags and placeholders leave nothing. -/
theorem plain {m : Mark} (around : List String) (s : GenState) (htag : m.tag? = none)
    (hparent : ∀ p kind parent, m ≠ .placeholder p kind parent) : Recorded around s [m] s := by
  cases m with
  | start | wrapper => cases htag
  | placeholder p kind parent => exact absurd rfl (hparent p kind parent)
  | _ =>
    have h : Recorded around s [] s := quiet around rfl rfl
    exact ⟨h.responsive, h.conditionals, h.renderings, h.contexts, h.parents, h.taken, h.fresh,
      h.spelled⟩

end Recorded

end Chtl.Html
