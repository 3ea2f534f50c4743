import Chtl.Proofs.Outcome
import Chtl.Proofs.Text.Basic
import Chtl.Script.Parse

/-!
# Segments of scripts

An item is written as a segment of its script: text as it is, an addition from its first character
to its last. Items are read from a text if their segments, one after the other, are the text. What
is read before the end of a text is a draft: segments of items, and characters that wait to become
text.
-/

set_option autoImplicit false
set_option linter.all false

namespace Chtl.Script

open Text

/-! ## How items are written -/

def Blank (cs : List Char) : Prop := ∀ c ∈ cs, isBlank c = true

/-- The group of braces that stands in front of `rest`. -/
structure Group (rest group : List Char) : Prop where
  whole : bracedLength? (group ++ rest) = some group.length
  closed : ∃ body, group = '{' :: (body ++ ['}'])

/-- A selector in double braces. It goes up to the first two braces that close. -/
structure Selector.Written (s : Selector) (offset : Nat) (rest text : List Char) : Prop where
  braces : ∃ inner, text = '{' :: '{' :: (inner ++ ['}', '}']) ∧
    find? ['}', '}'] (inner ++ '}' :: '}' :: rest) = some inner.length ∧ trim inner ≠ [] ∧
    s.target = .ofText (trim inner)
  span : s.span = ⟨offset, offset + size text⟩

/-- A selector and the blanks between it and the operator that claims it. -/
def Selector.Aims (s : Selector) (offset : Nat) (rest text : List Char) : Prop :=
  ∃ name gap, text = name ++ gap ∧ s.Written offset (gap ++ rest) name ∧ Blank gap

/-- A name with nothing behind it that would belong to it. -/
def IsName (rest name : List Char) : Prop :=
  ∃ c cs, name = c :: cs ∧ isWordStart c = true ∧ cs = (cs ++ rest).takeWhile isWordChar

/-- An arrow and a block with a keyword. -/
def Block (keyword : String) (rest text : List Char) : Prop :=
  ∃ blanks space group, text = '-' :: '>' :: (blanks ++ (keyword.toList ++ (space ++ group))) ∧
    Blank blanks ∧ Blank space ∧ Group rest group

/-- What a binding operator binds: a group of braces, or events, a colon and a handler that goes up
to the end of the clause. -/
inductive Clause (rest : List Char) : List Char → Prop
  | group {group : List Char} : Group rest group → Clause rest group
  | handler {names handler : List Char} : ':' ∉ names →
    clauseLength none 0 (handler ++ rest) = handler.length → Clause rest (names ++ ':' :: handler)

/-- A binding operator and its clause. -/
def Bound (rest text : List Char) : Prop :=
  ∃ blanks clause, text = '&' :: '-' :: '>' :: (blanks ++ clause) ∧ Blank blanks ∧
    Clause rest clause

/-- A binding statement from its operator on. Behind a comma it goes on with the same target, or
with another one. -/
inductive Clauses (rest : List Char) : Nat → Selector → List Binding → List Char → Prop
  | last {offset target handlers text} : Bound rest text →
    Clauses rest offset target [⟨target, handlers⟩] text
  | same {offset target handlers text gap bindings later} :
    Bound (',' :: (gap ++ (later ++ rest))) text → Blank gap →
    Clauses rest (offset + size (text ++ ',' :: gap)) target bindings later →
    Clauses rest offset target (⟨target, handlers⟩ :: bindings) (text ++ ',' :: (gap ++ later))
  | other {offset target handlers text gap next aim bindings later} :
    Bound (',' :: (gap ++ (aim ++ (later ++ rest)))) text → Blank gap →
    Selector.Aims next (offset + size (text ++ ',' :: gap)) (later ++ rest) aim →
    Clauses rest (offset + size (text ++ ',' :: (gap ++ aim))) next bindings later →
    Clauses rest offset target (⟨target, handlers⟩ :: bindings)
      (text ++ ',' :: (gap ++ (aim ++ later)))

/-- The segment an item is written as, at an offset and in front of `rest`. -/
inductive Item.Written (offset : Nat) (rest : List Char) : Item → List Char → Prop
  | raw {text} : text ≠ [] → Written offset rest (.raw (String.ofList text)) text
  | selector {s text} : Selector.Written s offset rest text → Written offset rest (.selector s) text
  | arrow : Written offset rest .arrow ['-', '>']
  | declaration {keyword : String} {blanks name} : keyword ∈ ["let", "const", "var"] → blanks ≠ [] →
    Blank blanks → IsName rest name →
    Written offset rest (.declaration keyword (String.ofList name))
      (keyword.toList ++ (blanks ++ name))
  | animate {a : Animation} {blanks group} : Blank blanks → Group rest group →
    a.span = ⟨offset, offset + size ("Animate".toList ++ (blanks ++ group))⟩ →
    Written offset rest (.animate a) ("Animate".toList ++ (blanks ++ group))
  | listen {target : Selector} {handlers aim block} : target.Aims offset (block ++ rest) aim →
    Block "Listen" rest block → Written offset rest (.listen target handlers) (aim ++ block)
  | delegate {target : Selector} {targets handlers aim block} :
    target.Aims offset (block ++ rest) aim → Block "Delegate" rest block →
    Written offset rest (.delegate target targets handlers) (aim ++ block)
  | bind {target : Selector} {bindings aim clauses} : target.Aims offset (clauses ++ rest) aim →
    Clauses rest (offset + size aim) target bindings clauses →
    Written offset rest (.bind bindings) (aim ++ clauses)

/-- The segments of items are, one after the other, the text in front of `rest`. -/
inductive Segmented (rest : List Char) : Nat → List Item → List Char → Prop
  | nil {offset} : Segmented rest offset [] []
  | cons {offset item items text later} : Item.Written offset (later ++ rest) item text →
    Segmented rest (offset + size text) items later →
    Segmented rest offset (item :: items) (text ++ later)

/-! ## Joining and parting segments -/

section

variable {rest text : List Char} {offset : Nat} {item : Item}

theorem segmented_append {front back : List Item} :
    Segmented rest offset (front ++ back) text ↔ ∃ early late, text = early ++ late ∧
      Segmented (late ++ rest) offset front early ∧
      Segmented rest (offset + size early) back late := by
  induction front generalizing offset text with
  | nil =>
    constructor
    · exact fun h => ⟨[], text, rfl, .nil, h⟩
    · rintro ⟨early, late, rfl, ⟨⟩, h⟩
      exact h
  | cons item front ih =>
    constructor
    · intro h
      cases h with
      | @cons _ _ _ text later hitem hlater =>
        obtain ⟨early, late, rfl, hearly, hlate⟩ := ih.mp hlater
        refine ⟨text ++ early, late, (List.append_assoc ..).symm, .cons ?_ hearly, ?_⟩
        · rwa [← List.append_assoc]
        · rwa [size_append, ← Nat.add_assoc]
    · rintro ⟨early, late, rfl, hearly, hlate⟩
      cases hearly with
      | @cons _ _ _ text later hitem hlater =>
        rw [List.append_assoc]
        refine .cons (by rwa [List.append_assoc]) (ih.mpr ⟨later, late, rfl, hlater, ?_⟩)
        rwa [size_append, ← Nat.add_assoc] at hlate

theorem segmented_singleton :
    Segmented rest offset [item] text ↔ item.Written offset rest text := by
  constructor
  · intro h
    cases h with
    | cons hitem hnil => cases hnil; simpa using hitem
  · intro h
    have hcons : Segmented rest offset [item] (text ++ []) := .cons (by simpa using h) .nil
    rwa [List.append_nil] at hcons

theorem segmented_concat {items : List Item} :
    Segmented rest offset (items ++ [item]) text ↔ ∃ early late, text = early ++ late ∧
      Segmented (late ++ rest) offset items early ∧
        item.Written (offset + size early) rest late := by
  simp only [segmented_append, segmented_singleton]

end

/-! ## Drafts -/

namespace Draft

/-- The draft holds what is read of a text that begins at `base`: segments, and characters that wait
to become text. -/
def Covers (d : Draft) (base : Nat) (front rest : List Char) : Prop :=
  ∃ text, front = text ++ d.pending.reverse ∧
    Segmented (d.pending.reverse ++ rest) base d.items.reverse text

variable {d : Draft} {base : Nat} {front rest taken : List Char}

theorem covers_empty (base : Nat) (rest : List Char) : Covers {} base [] rest := ⟨[], rfl, .nil⟩

theorem Covers.pass (h : d.Covers base front (taken ++ rest)) :
    (d.pass taken).Covers base (front ++ taken) rest := by
  obtain ⟨text, rfl, h⟩ := h
  exact ⟨text, by simp [Draft.pass], by simpa [Draft.pass] using h⟩

/-- Waiting characters continue a text that stands last. -/
theorem Covers.settle (h : d.Covers base front rest) :
    Segmented rest base d.settle.reverse front := by
  obtain ⟨text, rfl, h⟩ := h
  obtain ⟨items, pending⟩ := d
  dsimp only at h ⊢
  unfold Draft.settle
  dsimp only
  split
  · next hempty =>
    obtain rfl := List.isEmpty_iff.mp hempty
    simpa using h
  · next hpending =>
    have hne : pending.reverse ≠ [] := by simpa using hpending
    split
    · next before older =>
      obtain ⟨early, late, rfl, hearly, hlate⟩ := segmented_concat.mp (List.reverse_cons ▸ h)
      cases hlate with
      | @raw late _ =>
        rw [List.reverse_cons, ← String.ofList_append]
        refine segmented_concat.mpr ⟨early, late ++ pending.reverse, by simp, by simpa using hearly,
          .raw (by simpa using fun _ => hne)⟩
    · rw [List.reverse_cons]
      exact segmented_concat.mpr ⟨text, pending.reverse, rfl, h, .raw hne⟩

theorem Covers.add {item : Item} (h : d.Covers base front (taken ++ rest))
    (hitem : item.Written (base + size front) rest taken) :
    (d.add item).Covers base (front ++ taken) rest := by
  refine ⟨front ++ taken, (List.append_nil _).symm, ?_⟩
  simp only [Draft.add, List.reverse_nil, List.nil_append, List.reverse_cons]
  exact segmented_concat.mpr ⟨front, taken, rfl, h.settle, hitem⟩

theorem blank_of_segmented {items : List Item} {offset : Nat} {text : List Char}
    (h : Segmented rest offset items text) (hblank : ∀ item ∈ items, isBlankText item = true) :
    Blank text := by
  induction h with
  | nil => simp [Blank]
  | @cons offset item items text later hitem _ ih =>
    obtain ⟨hfirst, hmore⟩ := List.forall_mem_cons.mp hblank
    have htext : Blank text := by
      cases hitem with
      | raw => simpa [isBlankText, Blank] using hfirst
      | _ => cases hfirst
    exact List.forall_mem_append.mpr ⟨htext, ih hmore⟩

/-- The selector that an operator claims stands last, with the blanks behind it. -/
theorem Covers.takeTarget? {s : Selector} {before : Draft} (h : d.Covers base front rest)
    (htake : d.takeTarget? = some (s, before)) :
    ∃ early aim, front = early ++ aim ∧ before.Covers base early (aim ++ rest) ∧
      s.Aims (base + size early) rest aim := by
  unfold Draft.takeTarget? at htake
  split at htake
  · rename_i s' older hdrop
    cases htake
    have hsplit : d.settle.reverse =
        (older.reverse ++ [Item.selector s]) ++ (d.settle.takeWhile isBlankText).reverse := by
      conv_lhs => rw [← List.takeWhile_append_dropWhile (p := isBlankText) (l := d.settle), hdrop]
      simp
    have hsettle := h.settle
    rw [hsplit] at hsettle
    obtain ⟨most, gap, rfl, hmost, hgap⟩ := segmented_append.mp hsettle
    obtain ⟨early, name, rfl, hearly, hname⟩ := segmented_concat.mp hmost
    have hblank : Blank gap := blank_of_segmented hgap fun item hitem =>
      List.all_eq_true.mp List.all_takeWhile item (List.mem_reverse.mp hitem)
    refine ⟨early, name ++ gap, List.append_assoc .., ⟨early, (List.append_nil _).symm, ?_⟩, ?_⟩
    · simpa using hearly
    · cases hname with
      | selector hwritten => exact ⟨name, gap, rfl, hwritten, hblank⟩
  · cases htake

end Draft

end Chtl.Script
