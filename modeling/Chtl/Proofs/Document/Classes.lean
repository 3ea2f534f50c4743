import Chtl.Proofs.Document.Distinct
import Chtl.Proofs.Fragment.SourceMap
import Chtl.Proofs.Markup.Pieces
import Chtl.Proofs.Markup.Sequence
import Mathlib.Data.List.SplitBy
import Mathlib.Data.List.TakeWhile

/-!
# Classes that rules give

A rule whose selector begins with a class gives it to its owner. The element keeps the class with
all that is added to it later, unless its class attribute follows a variable, which takes no class,
or is written behind the block of the rule, which puts another value in its place.
-/

set_option autoImplicit false
set_option linter.all false

namespace Chtl

open Text

/-! ## Words -/

namespace Text

theorem words_append {cs more : List Char}
    (h : ∀ x ∈ cs.getLast?, ∀ y ∈ more.head?, isBlank x ≠ isBlank y) :
    words (cs ++ more) = words cs ++ words more := by
  rw [words, List.splitBy_append, List.filter_append]
  · rfl
  · exact fun x hx y hy => beq_eq_false_iff_ne.mpr (h x hx y hy)

/-- Characters that are all blank, or all not, make one run. -/
theorem words_of_uniform {cs : List Char} {blank : Bool} (hne : cs ≠ [])
    (h : ∀ c ∈ cs, isBlank c = blank) : words cs = if blank then [] else [cs] := by
  have hchain : cs.IsChain fun a b => (isBlank a == isBlank b) = true :=
    (List.pairwise_of_forall_mem_list fun a ha b hb =>
      beq_of_eq ((h a ha).trans (h b hb).symm)).isChain
  have hany : cs.any isBlank = blank := by
    cases blank with
    | false => simpa using h
    | true =>
      obtain ⟨c, hc⟩ := List.exists_mem_of_ne_nil cs hne
      exact List.any_eq_true.mpr ⟨c, hc, h c hc⟩
  rw [words, List.splitBy_of_isChain hne hchain, List.filter_singleton, hany]
  cases blank <;> rfl

/-- A text ends with blanks, and the character in front of them is none. -/
theorem exists_blanks_behind (cs : List Char) : ∃ front blanks, cs = front ++ blanks ∧
    (∀ x ∈ front.getLast?, isBlank x = false) ∧ ∀ c ∈ blanks, isBlank c = true := by
  refine ⟨(cs.reverse.dropWhile isBlank).reverse, (cs.reverse.takeWhile isBlank).reverse,
    ?_, ?_, ?_⟩
  · rw [← List.reverse_append, List.takeWhile_append_dropWhile, List.reverse_reverse]
  · intro x hx
    have hhead := List.head?_dropWhile_not isBlank cs.reverse
    rw [List.getLast?_reverse] at hx
    rwa [Option.mem_def.mp hx] at hhead
  · exact fun c hc => List.mem_takeWhile_imp (List.mem_reverse.mp hc)

/-- A word behind a blank comes to the words before. -/
theorem words_blank_append (cs : List Char) {word : List Char} (hne : word ≠ [])
    (hword : ∀ c ∈ word, isBlank c = false) : words (cs ++ ' ' :: word) = words cs ++ [word] := by
  obtain ⟨front, blanks, rfl, hfront, hblanks⟩ := exists_blanks_behind cs
  have hbehind {more : List Char} (hmore : ∀ c ∈ more, isBlank c = true) :
      words (front ++ more) = words front := by
    rcases eq_or_ne more [] with rfl | hsome
    · rw [List.append_nil]
    · rw [words_append, words_of_uniform hsome hmore, if_pos rfl, List.append_nil]
      intro x hx y hy
      rw [hfront x hx, hmore y (List.mem_of_mem_head? hy)]
      exact Bool.false_ne_true
  have hwider : ∀ c ∈ blanks ++ [' '], isBlank c = true :=
    List.forall_mem_append.mpr ⟨hblanks, by simp [isBlank]⟩
  have hsplit : front ++ blanks ++ ' ' :: word = front ++ (blanks ++ [' ']) ++ word := by simp
  rw [hsplit, words_append, hbehind hwider, hbehind hblanks, words_of_uniform hne hword]
  · rfl
  · intro x hx y hy
    obtain rfl : ' ' = x := by simpa using hx
    rw [hword y (List.mem_of_mem_head? hy)]
    decide

end Text

/-! ## Attributes by name -/

namespace Element

theorem find?_updateFirst {α : Type} {p : α → Bool} {f : α → α} (h : ∀ a, p a → p (f a))
    (as : List α) : (updateFirst p f as).find? p = (as.find? p).map f := by
  induction as with
  | nil => rfl
  | cons a as ih =>
    by_cases ha : p a
    · simp [updateFirst, ha, h a ha]
    · simp [updateFirst, ha, ih]

theorem find?_updateFirst_of_ne {α : Type} {p q : α → Bool} {f : α → α}
    (h : ∀ a, p a → q a = false ∧ q (f a) = false) (as : List α) :
    (updateFirst p f as).find? q = as.find? q := by
  induction as with
  | nil => rfl
  | cons a as ih =>
    by_cases ha : p a
    · simp [updateFirst, ha, h a ha]
    · simp [updateFirst, ha, List.find?_cons, ih]

theorem attribute?_congr {e e' : Element} (h : e'.attributes = e.attributes) (name : String) :
    e'.attribute? name = e.attribute? name := by
  rw [attribute?, attribute?, h]

theorem hasClass_congr {e e' : Element} (h : e'.attribute? "class" = e.attribute? "class")
    (name : String) : e'.hasClass name = e.hasClass name := by
  rw [hasClass, hasClass, classes, classes, h]

theorem attribute?_setAttribute (e : Element) (a : Attribute) (name : String) :
    (e.setAttribute a).attribute? name =
      if a.name = name then some a else e.attribute? name := by
  unfold setAttribute
  split_ifs with hfound hname hname
  · subst hname
    obtain ⟨b, hb⟩ := Option.isSome_iff_exists.mp hfound
    have hkept (b : Attribute) (_ : b.name == a.name) : a.name == a.name := beq_self_eq_true _
    rw [attribute?, find?_updateFirst hkept, ← attribute?, hb, Option.map_some]
  · refine find?_updateFirst_of_ne (fun b hb => ?_) e.attributes
    rw [beq_iff_eq.mp hb]
    exact ⟨beq_eq_false_iff_ne.mpr hname, beq_eq_false_iff_ne.mpr hname⟩
  · subst hname
    rw [Option.not_isSome_iff_eq_none] at hfound
    rw [attribute?, List.find?_append, ← attribute?, hfound]
    simp
  · simp [attribute?, List.find?_append, hname]

theorem attribute?_class_setIdIfAbsent (e : Element) (id : String) :
    (e.setIdIfAbsent id).attribute? "class" = e.attribute? "class" := by
  unfold setIdIfAbsent
  split_ifs
  · rfl
  · simp [attribute?, List.find?_append]

theorem attribute?_class_addClass (e : Element) (name : String) :
    (e.addClass name).attribute? "class" =
      if e.hasClass name then e.attribute? "class"
      else some (((e.attribute? "class").map (appendClass name)).getD
        ⟨"class", .literal name, e.span⟩) := by
  unfold addClass
  split_ifs with hclass hsome
  · rfl
  · obtain ⟨a, ha⟩ := Option.isSome_iff_exists.mp hsome
    rw [attribute?, find?_updateFirst (fun b hb => by rwa [name_appendClass]), ← attribute?, ha]
    rfl
  · rw [Option.not_isSome_iff_eq_none] at hsome
    rw [attribute?, List.find?_append, ← attribute?, hsome]
    rfl

/-! ## Classes -/

/-- A word that can be a class. -/
structure ClassName (name : String) : Prop where
  ne_nil : name.toList ≠ []
  not_blank : ∀ c ∈ name.toList, Text.isBlank c = false

theorem className_of_markedName? {mark : Char} {selector : List Char} {name : String}
    (h : markedName? mark selector = some name) : ClassName name := by
  cases selector with
  | nil => cases h
  | cons c rest =>
    rw [markedName?] at h
    split_ifs at h with hmarked
    cases h
    refine ⟨?_, fun c hc => ?_⟩
    · rw [String.toList_ofList]
      simpa using hmarked.2
    · rw [String.toList_ofList] at hc
      by_contra hblank
      have hchar := Text.not_isNameChar_of_isBlank (by simpa using hblank)
      rw [List.mem_takeWhile_imp hc] at hchar
      cases hchar

theorem hasClass_iff {e : Element} {name : String} :
    e.hasClass name ↔ ∃ a value, e.attribute? "class" = some a ∧ a.value = .literal value ∧
      name.toList ∈ Text.words value.toList := by
  have hmem (words : List (List Char)) :
      (words.map String.ofList).contains name ↔ name.toList ∈ words := by
    rw [List.contains_iff_mem, List.mem_map]
    constructor
    · rintro ⟨word, hword, rfl⟩
      rwa [String.toList_ofList]
    · exact fun hword => ⟨_, hword, String.ofList_toList⟩
  rw [hasClass, classes]
  cases e.attribute? "class" with
  | none => simp
  | some a =>
    cases hvalue : a.value with
    | literal value => simpa [hvalue, AttributeValue.literal?] using hmem (Text.words value.toList)
    | responsive followed unit => simp [hvalue, AttributeValue.literal?]

/-- A literal class attribute comes to one more word. -/
theorem words_appendClass {name : String} (hname : ClassName name) {a : Attribute} {value : String}
    (ha : a.value = .literal value) : ∃ longer, (appendClass name a).value = .literal longer ∧
      Text.words longer.toList = Text.words value.toList ++ [name.toList] := by
  refine ⟨if value = "" then name else value ++ " " ++ name, by rw [appendClass, ha], ?_⟩
  split_ifs with hempty
  · subst hempty
    exact Text.words_of_uniform hname.ne_nil hname.not_blank
  · rw [String.toList_append, String.toList_append, List.append_assoc]
    exact Text.words_blank_append value.toList hname.ne_nil hname.not_blank

theorem span_appendClass (name : String) (a : Attribute) :
    (appendClass name a).span = a.span := by
  unfold appendClass
  split <;> rfl

theorem hasClass_addClass {e : Element} {name other : String} (hname : ClassName name)
    (h : e.hasClass other) : (e.addClass name).hasClass other := by
  rw [hasClass_iff, attribute?_class_addClass]
  obtain ⟨a, value, ha, hvalue, hother⟩ := hasClass_iff.mp h
  split_ifs
  · exact ⟨a, value, ha, hvalue, hother⟩
  · obtain ⟨longer, hlonger, hwords⟩ := words_appendClass hname hvalue
    refine ⟨_, longer, by rw [ha, Option.map_some, Option.getD_some], hlonger, ?_⟩
    rw [hwords]
    exact List.mem_append_left _ hother

/-- An element has a class that it was given, unless its class attribute follows a variable. -/
theorem hasClass_addClass_self (e : Element) {name : String} (hname : ClassName name) :
    ∃ a, (e.addClass name).attribute? "class" = some a ∧
      ((e.addClass name).hasClass name ∨ a.value.literal? = none) := by
  rw [hasClass_iff, attribute?_class_addClass]
  split_ifs with hclass
  · obtain ⟨a, value, ha, hvalue, hword⟩ := hasClass_iff.mp hclass
    exact ⟨a, ha, .inl ⟨a, value, ha, hvalue, hword⟩⟩
  refine ⟨_, rfl, ?_⟩
  cases e.attribute? "class" with
  | none =>
    refine .inl ⟨_, name, rfl, rfl, ?_⟩
    rw [Text.words_of_uniform hname.ne_nil hname.not_blank]
    exact List.mem_singleton_self _
  | some a =>
    cases hvalue : a.value with
    | literal value =>
      obtain ⟨longer, hlonger, hwords⟩ := words_appendClass hname hvalue
      refine .inl ⟨_, longer, rfl, hlonger, ?_⟩
      rw [hwords]
      exact List.mem_append_right _ (List.mem_singleton_self _)
    | responsive followed unit =>
      refine .inr ?_
      rw [Option.map_some, Option.getD_some, appendClass, hvalue]
      exact congrArg AttributeValue.literal? hvalue

/-- A class attribute stays where it is, and follows its variable, when a class is added. -/
theorem attribute?_addClass_of_some {e : Element} {a : Attribute} (name : String)
    (ha : e.attribute? "class" = some a) : ∃ b, (e.addClass name).attribute? "class" = some b ∧
      b.span = a.span ∧ (a.value.literal? = none → b.value.literal? = none) := by
  rw [attribute?_class_addClass, ha]
  split_ifs
  · exact ⟨a, rfl, rfl, id⟩
  · refine ⟨appendClass name a, rfl, span_appendClass name a, fun hnone => ?_⟩
    cases hvalue : a.value with
    | literal value => simp [hvalue, AttributeValue.literal?] at hnone
    | responsive followed unit =>
      rw [appendClass, hvalue]
      exact congrArg AttributeValue.literal? hvalue

theorem rules_addRule (e : Element) (r : StyleRule) : (e.addRule r).rules = e.rules ++ [r] := by
  unfold addRule addClass setIdIfAbsent
  split
  · split_ifs <;> rfl
  · split_ifs <;> rfl
  · rfl

theorem rules_setAttribute (e : Element) (a : Attribute) : (e.setAttribute a).rules = e.rules := by
  unfold setAttribute
  split_ifs <;> rfl

/-- Only a class in front of its selector makes a rule change the class attribute. -/
theorem attribute?_class_addRule (e : Element) (r : StyleRule) :
    (e.addRule r).attribute? "class" =
      match markedName? '.' r.selector.toList with
      | some name => (e.addClass name).attribute? "class"
      | none => e.attribute? "class" := by
  unfold addRule
  cases markedName? '.' r.selector.toList with
  | some name => rfl
  | none =>
    cases markedName? '#' r.selector.toList with
    | some id => exact attribute?_class_setIdIfAbsent e id
    | none => rfl

end Element

/-! ## What rules give -/

variable {scanned : Scanned}

/-- The attribute begins where the markup has gone on behind the block of the rule. -/
def Attribute.Behind (scanned : Scanned) (a : Attribute) (r : StyleRule) : Prop :=
  ∃ n, r.ReadBy scanned n ∧ scanned.toSource n ≤ a.span.start

/-- In a source without marks such an attribute is written behind the rule. -/
theorem Attribute.Behind.span_le {source : List Char} (hmark : ¬ Placeholder.mark <:+: source)
    (hscan : scan source = .ok scanned) {a : Attribute} {r : StyleRule}
    (h : a.Behind scanned r) : r.span.stop ≤ a.span.start := by
  obtain ⟨n, ⟨f, hf, b, hb, hends, -, -, hstop⟩, hbehind⟩ := h
  obtain ⟨before, behind, hsplit, hbefore, htoken, hle⟩ := hends
  have hrange := Scanned.spanToSource_name hmark hscan hsplit hbefore hf hb htoken
  rw [Scanned.spanToSource_of_le hscan (Nat.le_add_right _ _)] at hrange
  obtain ⟨-, -, -, -, hbody, -⟩ := Scanned.blockAt_of_scan hscan hf hb
  calc r.span.stop ≤ f.bodyRange.stop := hstop
    _ ≤ f.range.stop := by omega
    _ = scanned.toSource (size before + size b.token.toList) := congrArg Span.stop hrange.symm
    _ ≤ scanned.toSource n := Scanned.toSource_monotone hscan hle
    _ ≤ a.span.start := hbehind

/-- The element has a class attribute, and the class that the rule gives it, unless the attribute
follows a variable or is written behind the block of the rule. -/
def StyleRule.Gives (scanned : Scanned) (r : StyleRule) (name : String) (e : Element) : Prop :=
  ∃ a, e.attribute? "class" = some a ∧
    (e.hasClass name ∨ a.value.literal? = none ∨ a.Behind scanned r)

theorem StyleRule.ReadBy.mono {r : StyleRule} {n m : Nat} (h : r.ReadBy scanned n) (hle : n ≤ m) :
    r.ReadBy scanned m := by
  obtain ⟨f, hf, b, hb, ⟨before, behind, hmarkup, hbefore, htoken, hends⟩, hspan⟩ := h
  exact ⟨f, hf, b, hb, ⟨before, behind, hmarkup, hbefore, htoken, Nat.le_trans hends hle⟩, hspan⟩

namespace StyleRule.Gives

variable {r : StyleRule} {name : String} {e e' : Element}

theorem congr (h : r.Gives scanned name e) (hsame : e'.attribute? "class" = e.attribute? "class") :
    r.Gives scanned name e' := by
  obtain ⟨a, ha, hgives⟩ := h
  refine ⟨a, hsame.trans ha, ?_⟩
  rwa [Element.hasClass_congr hsame]

theorem addClass {other : String} (hother : Element.ClassName other)
    (h : r.Gives scanned name e) : r.Gives scanned name (e.addClass other) := by
  obtain ⟨a, ha, hgives⟩ := h
  obtain ⟨b, hb, hspan, hliteral⟩ := Element.attribute?_addClass_of_some other ha
  refine ⟨b, hb, ?_⟩
  rcases hgives with hclass | hfollows | ⟨n, hread, hbehind⟩
  · exact .inl (Element.hasClass_addClass hother hclass)
  · exact .inr (.inl (hliteral hfollows))
  · exact .inr (.inr ⟨n, hread, by rwa [hspan]⟩)

end StyleRule.Gives

/-- The rules of the element stand in blocks that the markup has passed, and give their classes. -/
structure Element.Classed (scanned : Scanned) (e : Element) (n : Nat) : Prop where
  read : ∀ r ∈ e.rules, r.ReadBy scanned n
  gives : ∀ r ∈ e.rules, ∀ name, markedName? '.' r.selector.toList = some name →
    r.Gives scanned name e

namespace Element.Classed

variable {e : Element} {n : Nat}

/-- An attribute that comes next is behind all rules. -/
theorem setAttribute {source : List Char} (hscan : scan source = .ok scanned)
    (h : e.Classed scanned n) {a : Attribute} {start stop : Nat} (hstart : n ≤ start)
    (hstop : start ≤ stop) (ha : a.span = scanned.spanToSource ⟨start, stop⟩) :
    (e.setAttribute a).Classed scanned stop := by
  have hrules := e.rules_setAttribute a
  refine ⟨fun r hr => ?_, fun r hr name hname => ?_⟩
  · exact (h.read r (hrules ▸ hr)).mono (Nat.le_trans hstart hstop)
  rw [hrules] at hr
  by_cases hclass : a.name = "class"
  · refine ⟨a, by rw [attribute?_setAttribute, if_pos hclass], .inr (.inr ⟨n, h.read r hr, ?_⟩)⟩
    rw [ha]
    exact Scanned.toSource_monotone hscan hstart
  · exact (h.gives r hr name hname).congr (by rw [attribute?_setAttribute, if_neg hclass])

/-- A rule leaves the classes of the others and gives its own. -/
theorem addRule (h : e.Classed scanned n) {r : StyleRule} (hread : r.ReadBy scanned n) :
    (e.addRule r).Classed scanned n := by
  have hclass := e.attribute?_class_addRule r
  refine ⟨?_, ?_⟩
  · rw [rules_addRule]
    exact List.forall_mem_append.mpr ⟨h.read, by simpa using hread⟩
  · rw [rules_addRule]
    refine List.forall_mem_append.mpr ⟨fun r' hr' name hname => ?_, ?_⟩
    · have hgives := h.gives r' hr' name hname
      cases hmarked : markedName? '.' r.selector.toList with
      | some other =>
        rw [hmarked] at hclass
        exact (hgives.addClass (className_of_markedName? hmarked)).congr hclass
      | none =>
        rw [hmarked] at hclass
        exact hgives.congr hclass
    · simp only [List.mem_singleton, forall_eq]
      intro name hname
      rw [hname] at hclass
      obtain ⟨a, ha, hown⟩ := e.hasClass_addClass_self (className_of_markedName? hname)
      exact StyleRule.Gives.congr ⟨a, ha, hown.imp_right .inl⟩ hclass

end Element.Classed

/-- What is read item by item keeps the classes that rules give. -/
theorem Element.ReadTo.classed {source : List Char} (hscan : scan source = .ok scanned)
    {e : Element} {n : Nat} (h : e.ReadTo scanned n) : e.Classed scanned n := by
  induction h with
  | opened _ hrules => exact ⟨by simp [hrules], by simp [hrules]⟩
  | same _ hattributes hrules hle ih =>
    refine ⟨fun r hr => (ih.read r (hrules ▸ hr)).mono hle, fun r hr name hname => ?_⟩
    exact (ih.gives r (hrules ▸ hr) name hname).congr (Element.attribute?_congr hattributes _)
  | setAttribute _ hstart hstop ha ih => exact ih.setAttribute hscan hstart hstop ha
  | addRule _ hread ih => exact ih.addRule hread

namespace Document

/-- The owner of a rule whose selector begins with a class has a class attribute, and it has the
class, unless the attribute follows a variable or is written behind the block of the rule. -/
theorem rule_gives_class {source : List Char} (hscan : scan source = .ok scanned) {d : Document}
    (h : ofScanned scanned = .ok d) {e : Element} (he : e ∈ d.elements) {r : StyleRule}
    (hr : r ∈ e.rules) {name : String}
    (hname : Element.markedName? '.' r.selector.toList = some name) :
    ∃ a, e.attribute? "class" = some a ∧
      (e.hasClass name = true ∨ a.value.literal? = none ∨ a.Behind scanned r) := by
  obtain ⟨n, hread⟩ := readTo_of_ofScanned hscan h he
  exact (hread.classed hscan).gives r hr name hname

/-- A copy of a template whose class attribute stands in front of its style block. -/
theorem rule_gives_class_copy :
    ∃ source scanned d, ∃ e ∈ d.elements, ∃ r ∈ e.rules, source =
        "[Template] @Element T \x7b li \x7b class: b; style \x7b .a \x7b color: red; ".toList ++
          "\x7d \x7d \x7d \x7d ul \x7b @Element T; \x7d".toList ∧
      scan source = .ok scanned ∧ ofScanned scanned = .ok d ∧
      Element.markedName? '.' r.selector.toList = some "a" ∧
      ∃ a, e.attribute? "class" = some a ∧
        (e.hasClass "a" = true ∨ a.value.literal? = none ∨ a.Behind scanned r) := by
  obtain ⟨source, hsource⟩ : ∃ source : List Char, source =
      "[Template] @Element T \x7b li \x7b class: b; style \x7b .a \x7b color: red; ".toList ++
        "\x7d \x7d \x7d \x7d ul \x7b @Element T; \x7d".toList :=
    ⟨_, rfl⟩
  have hok : ∃ scanned, scan source = .ok scanned ∧ ∃ d, ofScanned scanned = .ok d ∧
      ∃ e ∈ d.elements, ∃ r ∈ e.rules,
        Element.markedName? '.' r.selector.toList = some "a" := by
    rw [hsource, String.toList_ofList, String.toList_ofList]
    decide +kernel
  obtain ⟨scanned, hs, d, hd, e, he, r, hr, hname⟩ := hok
  exact ⟨source, scanned, d, e, he, r, hr, hsource, hs, hd, hname,
    rule_gives_class hs hd he hr hname⟩

/-- A class attribute that follows a variable, in front of the style block, and one behind the style
block: neither owner has the class of its rule. -/
theorem rule_gives_no_class :
    (∃ source, source =
        "div \x7b class: $c$; style \x7b .a \x7b color: red; \x7d \x7d \x7d".toList ∧
      ∃ scanned, scan source = .ok scanned ∧ ∃ d, ofScanned scanned = .ok d ∧
        ∃ e ∈ d.elements, ∃ r ∈ e.rules,
          Element.markedName? '.' r.selector.toList = some "a" ∧ e.hasClass "a" = false) ∧
    ∃ source, source =
        "div \x7b style \x7b .a \x7b color: red; \x7d \x7d class: b; \x7d".toList ∧
      ∃ scanned, scan source = .ok scanned ∧ ∃ d, ofScanned scanned = .ok d ∧
        ∃ e ∈ d.elements, ∃ r ∈ e.rules,
          Element.markedName? '.' r.selector.toList = some "a" ∧ e.hasClass "a" = false := by
  refine ⟨⟨_, rfl, ?_⟩, _, rfl, ?_⟩
  · rw [String.toList_ofList]
    decide +kernel
  · rw [String.toList_ofList]
    decide +kernel

end Document

end Chtl
