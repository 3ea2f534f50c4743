import Chtl.Html.Escape
import Chtl.Proofs.Text.Basic
import Chtl.Proofs.Text.Replace

/-!
# Entities

A text on the page, or in the quotes of an attribute, is written with entities for the characters
that would end it. The ampersand is replaced first, so that those of the entities stay. Who decodes
the entities in one pass from left to right has the text again, also where it was full of entities
or of parts of them.
-/

set_option autoImplicit false
set_option linter.all false

namespace Chtl.Html

open Text

/-- The entities, with the characters they stand for. -/
def entities : List (List Char × Char) :=
  [("&amp;".toList, '&'), ("&lt;".toList, '<'), ("&gt;".toList, '>'), ("&quot;".toList, '"')]

/-- The entity at the front of a text. -/
def entity? (cs : List Char) : Option (List Char × Char) :=
  entities.find? fun e => startsWith cs e.1

/-- The text with a character for every entity, read once from left to right. -/
def decodeEntities (cs : List Char) : List Char :=
  match cs with
  | [] => []
  | c :: rest =>
    match entity? (c :: rest) with
    | some e => e.2 :: decodeEntities (rest.drop (e.1.length - 1))
    | none => c :: decodeEntities rest
termination_by cs.length
decreasing_by all_goals simp only [List.length_cons, List.length_drop]; omega

/-- An ampersand with more behind it, none of it a character that is escaped. -/
structure IsEntity (name : List Char) : Prop where
  begins : ∃ more, name = '&' :: more ∧ '&' ∉ more
  plain : ∀ x ∈ name, x ≠ '<' ∧ x ≠ '>' ∧ x ≠ '"'

theorem isEntity_of_mem {e : List Char × Char} (he : e ∈ entities) : IsEntity e.1 := by
  simp only [entities, List.mem_cons, List.not_mem_nil, or_false] at he
  rcases he with rfl | rfl | rfl | rfl <;> exact ⟨⟨_, rfl, by decide⟩, by simp⟩

/-- None of the entities is the front of another one. -/
theorem entity?_append {e : List Char × Char} (he : e ∈ entities) (rest : List Char) :
    entity? (e.1 ++ rest) = some e := by
  simp only [entities, List.mem_cons, List.not_mem_nil, or_false] at he
  rcases he with rfl | rfl | rfl | rfl <;> rfl

theorem entity?_eq_none {c : Char} (hc : c ≠ '&') (rest : List Char) :
    entity? (c :: rest) = none := by
  refine List.find?_eq_none.mpr fun e he hstarts => ?_
  obtain ⟨more, hname, -⟩ := (isEntity_of_mem he).begins
  rw [hname, startsWith_iff, List.cons_prefix_cons] at hstarts
  exact hc hstarts.1.symm

theorem decodeEntities_entity {e : List Char × Char} (he : e ∈ entities) (rest : List Char) :
    decodeEntities (e.1 ++ rest) = e.2 :: decodeEntities rest := by
  obtain ⟨more, hname, -⟩ := (isEntity_of_mem he).begins
  have hread := entity?_append he rest
  rw [hname, List.cons_append] at hread ⊢
  rw [decodeEntities, hread]
  simp [hname]

theorem decodeEntities_plain {c : Char} (hc : c ≠ '&') (rest : List Char) :
    decodeEntities (c :: rest) = c :: decodeEntities rest := by
  rw [decodeEntities, entity?_eq_none hc]

/-! ## Texts that are written with entities -/

/-- Every character is written by an entity that stands for it, or as itself. -/
def Encodes (write : Char → List Char) : Prop :=
  ∀ c, (write c, c) ∈ entities ∨ c ≠ '&' ∧ write c = [c]

/-- Every ampersand of the text is the first character of an entity. -/
def AllEntities (cs : List Char) : Prop :=
  ∀ behind, '&' :: behind <:+ cs → ∃ e ∈ entities, e.1 <+: '&' :: behind

/-- What begins with a character does not begin in a text without it. -/
theorem suffix_of_not_mem {x : Char} {front rest behind : List Char} (hx : x ∉ front)
    (h : x :: behind <:+ front ++ rest) : x :: behind <:+ rest := by
  induction front with
  | nil => exact h
  | cons c front ih =>
    obtain ⟨hc, hfront⟩ := not_or.mp (List.mem_cons.not.mp hx)
    rcases List.suffix_cons_iff.mp h with heq | hlater
    · exact absurd (List.cons.inj heq).1 hc
    · exact ih hfront hlater

namespace Encodes

variable {write : Char → List Char}

theorem decode (h : Encodes write) (cs : List Char) :
    decodeEntities (cs.flatMap write) = cs := by
  induction cs with
  | nil => rw [List.flatMap_nil, decodeEntities]
  | cons c cs ih =>
    rw [List.flatMap_cons]
    rcases h c with hentity | ⟨hc, hself⟩
    · rw [decodeEntities_entity hentity, ih]
    · rw [hself, List.singleton_append, decodeEntities_plain hc, ih]

theorem allEntities (h : Encodes write) (cs : List Char) : AllEntities (cs.flatMap write) := by
  induction cs with
  | nil =>
    intro behind hsuffix
    simp at hsuffix
  | cons c cs ih =>
    intro behind hsuffix
    rw [List.flatMap_cons] at hsuffix
    rcases h c with hentity | ⟨hc, hself⟩
    · obtain ⟨more, hname, hmore⟩ := (isEntity_of_mem hentity).begins
      rw [show write c = '&' :: more from hname, List.cons_append, List.suffix_cons_iff] at hsuffix
      rcases hsuffix with hfront | hsuffix
      · exact ⟨_, hentity, hfront ▸ hname ▸ List.prefix_append _ _⟩
      · exact ih behind (suffix_of_not_mem hmore hsuffix)
    · rw [hself, List.singleton_append, List.suffix_cons_iff] at hsuffix
      rcases hsuffix with hfront | hsuffix
      · exact absurd (List.cons.inj hfront).1.symm hc
      · exact ih behind hsuffix

/-- A character that is escaped is not written. -/
theorem not_mem (h : Encodes write) {x : Char} (hx : x = '<' ∨ x = '>' ∨ x = '"')
    (hescaped : write x ≠ [x]) (cs : List Char) : x ∉ cs.flatMap write := by
  intro hmem
  obtain ⟨c, -, hc⟩ := List.mem_flatMap.mp hmem
  rcases h c with hentity | ⟨-, hself⟩
  · obtain ⟨hless, hgreater, hquote⟩ := (isEntity_of_mem hentity).plain x hc
    rcases hx with rfl | rfl | rfl <;> contradiction
  · rw [hself, List.mem_singleton] at hc
    exact hescaped (hc ▸ hself)

end Encodes

/-! ## Texts and attribute values -/

/-- What is replaced in a text, in this order. -/
def textRules : List (Char × List Char) :=
  [('&', "&amp;".toList), ('<', "&lt;".toList), ('>', "&gt;".toList)]

/-- What is replaced in the value of an attribute, in this order. -/
def attributeRules : List (Char × List Char) := textRules ++ [('"', "&quot;".toList)]

theorem replaceInTurn_textRules (c : Char) : replaceInTurn textRules [c] = textEntity c := by
  by_cases hamp : c = '&'
  · subst hamp; rfl
  by_cases hless : c = '<'
  · subst hless; rfl
  by_cases hgreater : c = '>'
  · subst hgreater; rfl
  simp [replaceInTurn, textRules, replaceChar, textEntity, hamp, hless, hgreater]

theorem replaceInTurn_attributeRules (c : Char) :
    replaceInTurn attributeRules [c] = attributeEntity c := by
  have hlast : replaceInTurn attributeRules [c] =
      replaceChar '"' "&quot;".toList (textEntity c) := by
    rw [← replaceInTurn_textRules, replaceInTurn, attributeRules, List.foldl_append]
    rfl
  by_cases hquote : c = '"'
  · subst hquote; rfl
  rw [hlast, attributeEntity, if_neg hquote]
  fun_cases textEntity c with
  | case1 => rfl
  | case2 => rfl
  | case3 => rfl
  | case4 => rw [replaceChar, List.flatMap_singleton, if_neg hquote]

theorem encodes_textEntity : Encodes textEntity := by
  intro c
  unfold textEntity
  split_ifs with hamp hless hgreater
  · exact .inl (hamp ▸ by decide)
  · exact .inl (hless ▸ by decide)
  · exact .inl (hgreater ▸ by decide)
  · exact .inr ⟨hamp, rfl⟩

theorem encodes_attributeEntity : Encodes attributeEntity := by
  intro c
  unfold attributeEntity
  split_ifs with hquote
  · exact .inl (hquote ▸ by decide)
  · exact encodes_textEntity c

theorem escapeText_eq (s : String) :
    (escapeText s).toList = replaceInTurn textRules s.toList := by
  rw [escapeText, String.toList_ofList, replaceInTurn_eq_flatMap replaceInTurn_textRules]

theorem escapeAttribute_eq (s : String) :
    (escapeAttribute s).toList = replaceInTurn attributeRules s.toList := by
  rw [escapeAttribute, String.toList_ofList, replaceInTurn_eq_flatMap replaceInTurn_attributeRules]

/-- A text and the value of an attribute are written by replacements in turn. None of the characters
that would end them is left, every ampersand begins an entity, and decoding the entities gives back
what was to be written. -/
theorem decodeEntities_escape (s : String) :
    ((escapeAttribute s).toList = replaceInTurn attributeRules s.toList ∧
      (escapeText s).toList = replaceInTurn textRules s.toList) ∧
    ('<' ∉ (escapeAttribute s).toList ∧ '>' ∉ (escapeAttribute s).toList ∧
      '"' ∉ (escapeAttribute s).toList) ∧
    ('<' ∉ (escapeText s).toList ∧ '>' ∉ (escapeText s).toList) ∧
    (AllEntities (escapeAttribute s).toList ∧ AllEntities (escapeText s).toList) ∧
    decodeEntities (escapeAttribute s).toList = s.toList ∧
    decodeEntities (escapeText s).toList = s.toList := by
  refine ⟨⟨escapeAttribute_eq s, escapeText_eq s⟩, ?_⟩
  rw [escapeAttribute, escapeText, String.toList_ofList, String.toList_ofList]
  have hattribute := encodes_attributeEntity
  have htext := encodes_textEntity
  refine ⟨⟨?_, ?_, ?_⟩, ⟨?_, ?_⟩, ⟨hattribute.allEntities _, htext.allEntities _⟩,
    hattribute.decode _, htext.decode _⟩
  · exact hattribute.not_mem (.inl rfl) (by decide) _
  · exact hattribute.not_mem (.inr (.inl rfl)) (by decide) _
  · exact hattribute.not_mem (.inr (.inr rfl)) (by decide) _
  · exact htext.not_mem (.inl rfl) (by decide) _
  · exact htext.not_mem (.inr (.inl rfl)) (by decide) _

end Chtl.Html
