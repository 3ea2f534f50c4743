import Chtl.Extension.Registry
import Chtl.Proofs.Extension.Occurrence
import Chtl.Proofs.Outcome
import Mathlib.Data.List.Forall2

/-!
# A pass of an extension

An extension cuts a script at the occurrences of its keyword, each looked for behind the one before,
and puts a text in the place of each. Nothing that is put in is searched again. The same comes of it
when the texts are put into one buffer that is searched on behind each of them, since what stands
behind that position is always what is left of the script.
-/

set_option autoImplicit false
set_option linter.all false

namespace Chtl.Extension

open Text

/-- A script cut at occurrences of a keyword. -/
structure Cut where
  occurrences : List Occurrence
  /-- What stands behind the last occurrence. -/
  rest : List Char

/-- Behind an occurrence there is less of the script. -/
theorem length_behind {keyword cs : List Char} {o : Occurrence}
    (h : occurrence? keyword cs = some o) : cs.length - o.length < cs.length := by
  obtain ⟨hwritten, rest, rfl⟩ := written_of_occurrence? h
  have := List.length_pos_iff.mpr hwritten.ne_nil
  simp only [List.length_append, Occurrence.length]
  omega

namespace Cut

/-- The first occurrence, and the ones in what stands behind it. -/
def ofScript (keyword cs : List Char) : Cut :=
  match h : occurrence? keyword cs with
  | none => ⟨[], cs⟩
  | some o =>
    have := length_behind h
    let behind := ofScript keyword (cs.drop o.length)
    ⟨o :: behind.occurrences, behind.rest⟩
termination_by cs.length

/-- The script with texts in the place of the occurrences. -/
def fill : List Occurrence → List Char → List (List Char) → List Char
  | o :: os, rest, text :: texts => o.before ++ (text ++ fill os rest texts)
  | _, rest, _ => rest

/-- The script with these texts in the place of its occurrences, and everything else as it was. -/
def filled (c : Cut) (texts : List (List Char)) : List Char := fill c.occurrences c.rest texts

end Cut

/-- The pass over one buffer: the text for an occurrence takes its place in the buffer, and the
search goes on behind that text. Positions count characters, spans bytes. -/
def expandInPlace (x : Extension) (base : Nat) (buffer : List Char) (position : Nat) :
    Except ExtensionError (List Char) :=
  match h : occurrence? x.keyword.toList (buffer.drop position) with
  | none => .ok buffer
  | some o =>
    have := length_behind h
    let start := position + o.before.length
    let stop := start + o.text.length
    match x.expand o with
    | .error reason =>
      .error ⟨x.keyword, reason, ⟨base + size (buffer.take start), base + size (buffer.take stop)⟩⟩
    | .ok expansion =>
      x.expandInPlace base (buffer.take start ++ (expansion.toList ++ buffer.drop stop))
        (start + expansion.toList.length)
termination_by buffer.length - position
decreasing_by
  simp only [List.length_append, List.length_take, List.length_drop, Occurrence.length] at this ⊢
  omega

section

variable {x : Extension} {o : Occurrence} {rest : List Char}

theorem expandFrom_none {offset : Nat} {cs : List Char}
    (h : occurrence? x.keyword.toList cs = none) : x.expandFrom offset cs = .ok cs := by
  cases cs with
  | nil => rw [expandFrom]
  | cons c cs => rw [expandFrom, h]

theorem expandFrom_some {offset : Nat} (hne : o.text ≠ [])
    (h : occurrence? x.keyword.toList (o.before ++ (o.text ++ rest)) = some o) :
    x.expandFrom offset (o.before ++ (o.text ++ rest)) =
      match x.expand o with
      | .error reason => .error ⟨x.keyword, reason, o.range.shift offset⟩
      | .ok expansion =>
        (x.expandFrom (offset + size (o.before ++ expansion.toList)) rest).map
          (o.before ++ expansion.toList ++ ·) := by
  cases hcs : o.before ++ (o.text ++ rest) with
  | nil => simp [hne] at hcs
  | cons c cs =>
    rw [hcs] at h
    rw [expandFrom, h]
    dsimp only
    cases x.expand o with
    | error reason => rfl
    | ok expansion =>
      dsimp only
      rw [Occurrence.length, drop_of_append_eq_cons hne hcs]
      cases x.expandFrom (offset + size (o.before ++ expansion.toList)) rest <;> rfl

theorem expandInPlace_none {base : Nat} {done cs : List Char}
    (h : occurrence? x.keyword.toList cs = none) :
    x.expandInPlace base (done ++ cs) done.length = .ok (done ++ cs) := by
  rw [expandInPlace]
  split
  · rfl
  · rename_i hsome
    rw [List.drop_left, h] at hsome
    cases hsome

theorem expandInPlace_some {base : Nat} {done : List Char}
    (h : occurrence? x.keyword.toList (o.before ++ (o.text ++ rest)) = some o) :
    x.expandInPlace base (done ++ (o.before ++ (o.text ++ rest))) done.length =
      match x.expand o with
      | .error reason => .error ⟨x.keyword, reason, o.range.shift (base + size done)⟩
      | .ok expansion =>
        x.expandInPlace base (done ++ (o.before ++ expansion.toList) ++ rest)
          (done ++ (o.before ++ expansion.toList)).length := by
  have hstart : done ++ (o.before ++ (o.text ++ rest)) =
      (done ++ o.before) ++ (o.text ++ rest) := by simp
  have hstop : done ++ (o.before ++ (o.text ++ rest)) =
      (done ++ o.before ++ o.text) ++ rest := by simp
  rw [expandInPlace]
  split
  · rename_i hnone
    rw [List.drop_left, h] at hnone
    cases hnone
  · rename_i found hfound
    rw [List.drop_left, h] at hfound
    cases hfound
    rw [← List.length_append]
    cases x.expand o with
    | error reason =>
      have hspan : (⟨base + size (done ++ o.before), base + size (done ++ o.before ++ o.text)⟩ :
          Span) = o.range.shift (base + size done) := by
        simp only [Occurrence.range, Span.shift, size_append, Span.mk.injEq]
        omega
      dsimp only
      rw [hstart, List.take_left, ← hstart, hstop, ← List.length_append, List.take_left, hspan]
    | ok expansion =>
      dsimp only
      rw [hstart, List.take_left, ← hstart, hstop, ← List.length_append, List.drop_left]
      simp [Nat.add_assoc]

/-- Putting the texts into one buffer leads to what comes of cutting the script. -/
theorem expandInPlace_eq (x : Extension) (base : Nat) (done cs : List Char) :
    x.expandInPlace base (done ++ cs) done.length =
      (x.expandFrom (base + size done) cs).map (done ++ ·) := by
  induction cs using occurrence_induction x.keyword.toList generalizing done with
  | clear cs hnone =>
    rw [expandInPlace_none hnone, expandFrom_none hnone]
    rfl
  | found o rest hwritten hsome ih =>
    rw [expandInPlace_some hsome, expandFrom_some hwritten.ne_nil hsome]
    cases x.expand o with
    | error reason => rfl
    | ok expansion =>
      dsimp only
      rw [ih, size_append, Nat.add_assoc]
      cases x.expandFrom (base + (size done + size (o.before ++ expansion.toList))) rest with
      | error e => rfl
      | ok more => simp [Except.map]

theorem ofScript_none {keyword cs : List Char} (h : occurrence? keyword cs = none) :
    Cut.ofScript keyword cs = ⟨[], cs⟩ := by
  rw [Cut.ofScript]
  split
  · rfl
  · rename_i hsome
    rw [h] at hsome
    cases hsome

theorem ofScript_some {keyword : List Char}
    (h : occurrence? keyword (o.before ++ (o.text ++ rest)) = some o) :
    Cut.ofScript keyword (o.before ++ (o.text ++ rest)) =
      ⟨o :: (Cut.ofScript keyword rest).occurrences, (Cut.ofScript keyword rest).rest⟩ := by
  have hrest : (o.before ++ (o.text ++ rest)).drop o.length = rest := by
    rw [← List.append_assoc, Occurrence.length, ← List.length_append, List.drop_left]
  rw [Cut.ofScript]
  split
  · rename_i hnone
    rw [h] at hnone
    cases hnone
  · rename_i found hfound
    rw [h] at hfound
    cases hfound
    rw [hrest]

/-- With their own texts in the place of the occurrences the script is as it was. -/
theorem filled_texts (keyword cs : List Char) :
    (Cut.ofScript keyword cs).filled ((Cut.ofScript keyword cs).occurrences.map (·.text)) = cs := by
  induction cs using occurrence_induction keyword with
  | clear cs hnone => rw [ofScript_none hnone]; rfl
  | found o rest hwritten hsome ih =>
    rw [ofScript_some hsome]
    rw [Cut.filled] at ih ⊢
    simp only [List.map_cons, Cut.fill, ih]

theorem occurrence?_rest (keyword cs : List Char) :
    occurrence? keyword (Cut.ofScript keyword cs).rest = none := by
  induction cs using occurrence_induction keyword with
  | clear cs hnone => rw [ofScript_none hnone, hnone]
  | found o rest hwritten hsome ih => rw [ofScript_some hsome, ih]

theorem expandFrom_eq_ok_iff (x : Extension) (offset : Nat) (cs out : List Char) :
    x.expandFrom offset cs = .ok out ↔
      ∃ expansions, List.Forall₂ (fun o expansion => x.expand o = .ok expansion)
          (Cut.ofScript x.keyword.toList cs).occurrences expansions ∧
        out = (Cut.ofScript x.keyword.toList cs).filled (expansions.map String.toList) := by
  induction cs using occurrence_induction x.keyword.toList generalizing offset out with
  | clear cs hnone =>
    rw [expandFrom_none hnone, ofScript_none hnone]
    simp [Cut.filled, Cut.fill, eq_comm]
  | found o rest hwritten hsome ih =>
    rw [expandFrom_some hwritten.ne_nil hsome, ofScript_some hsome]
    cases hexpand : x.expand o with
    | error reason => simp [List.forall₂_cons_left_iff, hexpand]
    | ok expansion =>
      simp only [map_eq_ok_iff, ih, List.forall₂_cons_left_iff, hexpand]
      constructor
      · rintro ⟨more, ⟨expansions, hforall, rfl⟩, rfl⟩
        exact ⟨expansion :: expansions, ⟨expansion, expansions, rfl, hforall, rfl⟩,
          by simp [Cut.filled, Cut.fill]⟩
      · rintro ⟨_, ⟨expansion', expansions, heq, hforall, rfl⟩, rfl⟩
        cases heq
        exact ⟨_, ⟨expansions, hforall, rfl⟩, by simp [Cut.filled, Cut.fill]⟩

theorem length_occurrences_le (keyword cs : List Char) :
    (Cut.ofScript keyword cs).occurrences.length ≤ cs.length := by
  induction cs using occurrence_induction keyword with
  | clear cs hnone => simp [ofScript_none hnone]
  | found o rest hwritten hsome ih =>
    have := List.length_pos_iff.mpr hwritten.ne_nil
    rw [ofScript_some hsome]
    simp only [List.length_cons, List.length_append]
    omega

end

end Chtl.Extension

namespace Chtl.Extensions

open Extension

/-- An extension alone puts its texts in the place of the occurrences in the script as it was given,
and leaves the rest: no text that is put in is searched, or changes what is found behind it. This
comes of putting the texts into one buffer. Extensions together are one such pass after the other,
in the order of their registration. -/
theorem apply_fills (x : Extension) (text : List Char) (base : Nat) :
    let cut := Cut.ofScript x.keyword.toList text
    (cut.filled (cut.occurrences.map (·.text)) = text ∧
      occurrence? x.keyword.toList cut.rest = none ∧ cut.occurrences.length ≤ text.length) ∧
    (∀ out, apply ⟨[x]⟩ text base = .ok out ↔
      ∃ expansions, List.Forall₂ (fun o expansion => x.expand o = .ok expansion)
          cut.occurrences expansions ∧
        out = cut.filled (expansions.map String.toList)) ∧
    apply ⟨[x]⟩ text base = x.expandInPlace base text 0 ∧
    ∀ r : Extensions,
      r.apply text base = r.entries.foldlM (fun t y => apply ⟨[y]⟩ t base) text := by
  have hone (y : Extension) (t : List Char) : apply ⟨[y]⟩ t base = y.expandFrom base t := by
    simp [apply]
  refine ⟨⟨filled_texts _ _, occurrence?_rest _ _, length_occurrences_le _ _⟩, ?_, ?_, ?_⟩
  · intro out
    rw [hone]
    exact expandFrom_eq_ok_iff x base text out
  · rw [hone]
    refine Eq.trans ?_ (expandInPlace_eq x base [] text).symm
    change x.expandFrom base text = (x.expandFrom base text).map ([] ++ ·)
    cases x.expandFrom base text <;> rfl
  · intro r
    simp only [hone]
    rfl

/-- A text that holds its own keyword. -/
example : apply ⟨[⟨"say", fun o => .ok ("say(" ++ String.ofList o.body ++ ", 1)")⟩]⟩
    "say(a); say(b)".toList 0 = .ok "say(a, 1); say(b, 1)".toList := by
  decide +kernel

end Chtl.Extensions
