import Chtl.Proofs.Fragment.Tiling
import Chtl.Proofs.Script.Covering
import Chtl.Proofs.Script.Depth

/-!
# Where selectors are written

A script is read from stretches of its text, at whatever depth, so the span of a selector in it
leads back to the characters it was read from: a text in double braces that names its target.
-/

set_option autoImplicit false
set_option linter.all false

namespace Chtl.Script

open Text

/-- At its span the text holds the selector: a text in which no two braces close, between double
braces. Without the blanks around it that text names the target. -/
def Selector.Spelled (text : List Char) (base : Nat) (s : Selector) : Prop :=
  ∃ inner span, Occupies text ("\x7b\x7b".toList ++ inner ++ "\x7d\x7d".toList) span ∧
    s.span = span.shift base ∧ contains inner "\x7d\x7d".toList = false ∧
    s.target = .ofText (trim inner)

/-- What comes before the first occurrence of a text does not contain it. -/
theorem contains_of_find? {needle inner rest : List Char} (hne : needle ≠ [])
    (h : find? needle (inner ++ rest) = some inner.length) : contains inner needle = false := by
  by_contra hcontains
  obtain ⟨n, hn⟩ := Option.isSome_iff_exists.mp (Bool.not_eq_false _ ▸ hcontains)
  obtain ⟨hfirst, hle⟩ := find?_append hn rest
  rw [h] at hfirst
  cases hfirst
  have := List.length_pos_iff.mpr hne
  omega

theorem Selector.Written.spelled {s : Selector} {offset base : Nat} {text name rest : List Char}
    (h : s.Written offset rest name) (hstretch : Stretch text base offset name) :
    s.Spelled text base := by
  obtain ⟨⟨inner, rfl, hfind, -, htarget⟩, hspan⟩ := h
  obtain ⟨before, after, rfl, rfl⟩ := hstretch
  refine ⟨inner, ⟨size before, size before + size ('{' :: '{' :: (inner ++ ['}', '}']))⟩,
    ⟨before, after, by simp, rfl, by simp⟩, ?_, ?_, htarget⟩
  · rw [hspan, Span.shift, Nat.add_comm base, Nat.add_right_comm]
  · exact contains_of_find? (List.cons_ne_nil _ _) hfind

theorem accepts_spelled (text : List Char) (base : Nat) :
    Accepts text base (Selector.Spelled text base) := by
  intro offset cs h hstart
  have hbetween := accepts_between text base h hstart
  cases hread : selectorAt offset cs with
  | error e =>
    rw [hread] at hbetween
    exact hbetween
  | ok r =>
    obtain ⟨name, rest, rfl, -, hwritten⟩ := exists_selector hstart hread
    exact hwritten.spelled h.front

/-- Every selector of a script, in whatever addition and at whatever depth, stands at its span as it
was written, and what the braces hold names its target. No greater depth of nesting than the one a
script is read with leads to anything else. -/
theorem parse_spells (text : List Char) (base : Nat) :
    (∀ depth, text.length < depth → (itemsWithin depth base text).run [] = parse text base) ∧
    ∀ items noted, parse text base = .ok (items, noted) →
      ∀ s ∈ selectorsOf items, s.Spelled text base := by
  refine ⟨fun depth hdepth => ?_, fun items noted hparse => ?_⟩
  · rw [parse, itemsWithin_congr base hdepth (Nat.lt_succ_self _)]
  · have hfound := finds_itemsWithin (fun h hstart => accepts_spelled text base h hstart)
      (text.length + 1) (.whole text base) []
    unfold parse at hparse
    rw [hparse] at hfound
    exact hfound

/-- The callback of an animation in a handler asks for the own element. The letter in front of it
all takes two bytes. -/
theorem parse_spells_callback :
    ∃ text items noted, text = ("é \x7b\x7b#a\x7d\x7d->Listen\x7bx:Animate\x7b" ++
        "target:\x7b\x7b b \x7d\x7d,callback:\x7b\x7b&\x7d\x7d\x7d\x7d").toList ∧
      parse text 7 = .ok (items, noted) ∧
      selectorsOf items = [⟨.id "a", ⟨10, 16⟩⟩, ⟨.auto "b", ⟨42, 49⟩⟩, ⟨.own, ⟨59, 64⟩⟩] ∧
      ∀ s ∈ selectorsOf items, s.Spelled text 7 := by
  have hread : (parse ("é \x7b\x7b#a\x7d\x7d->Listen\x7bx:Animate\x7b" ++
      "target:\x7b\x7b b \x7d\x7d,callback:\x7b\x7b&\x7d\x7d\x7d\x7d").toList 7).map
        (fun r => selectorsOf r.1) =
      .ok [⟨.id "a", ⟨10, 16⟩⟩, ⟨.auto "b", ⟨42, 49⟩⟩, ⟨.own, ⟨59, 64⟩⟩] := by
    decide +kernel
  obtain ⟨⟨items, noted⟩, hparse, hsels⟩ := map_eq_ok_iff.mp hread
  exact ⟨_, items, noted, rfl, hparse, hsels, (parse_spells _ 7).2 items noted hparse⟩

end Chtl.Script
