import Chtl.Markup.Style
import Chtl.Proofs.Text.Basic
import Mathlib.Tactic.Common

/-!
# What readers read

A reader is described by the text it starts at, the text it leaves and what is promised of its
result. Offsets, node ids and what stood before the text do not enter into this. Descriptions of
steps give descriptions of whole readers. They are about units that define no templates and whose
elements hold no style blocks.
-/

set_option autoImplicit false
set_option linter.all false

namespace Chtl.Markup

open Text

/-- No template has been defined, and no block has become part of an element. -/
def Progress.Plain (p : Progress) : Prop := p.templates = {} ∧ p.consumed = []

variable {α β : Type} {s : Setting} {text middle left : List Char}

/-- From the text the reader gets to what is left, and its result is good. -/
def Reads (s : Setting) (text : List Char) (x : Reader α) (left : List Char) (good : α → Prop) :
    Prop :=
  ∀ p : Progress, p.cursor.rest = text → p.Plain →
    ∃ a p', (x.run s).run p = .ok (a, p') ∧ p'.cursor.rest = left ∧ p'.Plain ∧ good a

namespace Reads

theorem pure {a : α} {good : α → Prop} (h : good a) : Reads s text (Pure.pure a) text good :=
  fun p hp hplain => ⟨a, p, rfl, hp, hplain, h⟩

theorem bind {x : Reader α} {f : α → Reader β} {good : α → Prop} {fine : β → Prop}
    (hx : Reads s text x middle good) (hf : ∀ a, good a → Reads s middle (f a) left fine) :
    Reads s text (x >>= f) left fine := by
  intro p hp hplain
  obtain ⟨a, p', hrun, hp', hplain', ha⟩ := hx p hp hplain
  obtain ⟨b, p'', hrun', hp'', hplain'', hb⟩ := hf a ha p' hp' hplain'
  refine ⟨b, p'', ?_, hp'', hplain'', hb⟩
  rw [ReaderT.run_bind, StateT.run_bind, hrun]
  exact hrun'

theorem bind_value {x : Reader α} {f : α → Reader β} {a : α} {fine : β → Prop}
    (hx : Reads s text x middle (· = a)) (hf : Reads s middle (f a) left fine) :
    Reads s text (x >>= f) left fine := by
  apply hx.bind
  intro b hb
  rwa [hb]

theorem mono {x : Reader α} {good fine : α → Prop} (hx : Reads s text x left good)
    (h : ∀ a, good a → fine a) : Reads s text x left fine := by
  intro p hp hplain
  obtain ⟨a, p', hrun, hp', hplain', ha⟩ := hx p hp hplain
  exact ⟨a, p', hrun, hp', hplain', h a ha⟩

theorem skip (n : Nat) : Reads s text (Reader.skip n) (text.drop n) fun _ => True := by
  rintro p rfl hplain
  exact ⟨(), _, rfl, rfl, hplain, trivial⟩

theorem rest : Reads s text Reader.rest text (· = text) :=
  fun p hp hplain => ⟨_, p, rfl, hp, hplain, hp⟩

theorem offset : Reads s text Reader.offset text fun _ => True :=
  fun p hp hplain => ⟨_, p, rfl, hp, hplain, trivial⟩

theorem peek? : Reads s text Reader.peek? text (· = text.head?) :=
  fun p hp hplain => ⟨_, p, rfl, hp, hplain, by rw [← hp]; rfl⟩

theorem atEnd : Reads s text Reader.atEnd text (· = text.isEmpty) :=
  fun p hp hplain => ⟨_, p, rfl, hp, hplain, by rw [← hp]; rfl⟩

theorem spanOf (start stop : Nat) : Reads s text (Reader.spanOf start stop) text fun _ => True :=
  fun p hp hplain => ⟨_, p, rfl, hp, hplain, trivial⟩

theorem spanFrom (start : Nat) : Reads s text (Reader.spanFrom start) text fun _ => True :=
  fun p hp hplain => ⟨_, p, rfl, hp, hplain, trivial⟩

theorem freshId : Reads s text Reader.freshId text fun _ => True :=
  fun p hp hplain => ⟨_, { p with nextId := p.nextId + 1 }, rfl, hp, hplain, trivial⟩

theorem looksAt (lead : List Char) :
    Reads s text (Reader.looksAt lead) text (· = startsWith text lead) :=
  fun p hp hplain => ⟨_, p, rfl, hp, hplain, by rw [hp]⟩

theorem skipTrivia :
    Reads s text Reader.skipTrivia (text.drop (triviaLength text)) fun _ => True := by
  apply Reads.rest.bind_value
  exact Reads.skip _

theorem eat (c : Char) : Reads s (c :: left) (Reader.eat c) left (· = true) := by
  apply Reads.peek?.bind_value
  rw [List.head?_cons, if_pos rfl]
  exact (Reads.skip 1).bind fun _ _ => .pure rfl

theorem eat_other {c : Char} (h : text.head? ≠ some c) :
    Reads s text (Reader.eat c) text (· = false) := by
  apply Reads.peek?.bind_value
  rw [if_neg h]
  exact .pure rfl

theorem expect (c : Char) (expected : Expectation) :
    Reads s (c :: left) (Reader.expect c expected) left fun _ => True := by
  apply (Reads.eat c).bind_value
  exact .pure trivial

theorem takeName {name : List Char} (hname : name? (name ++ left) = some name)
    (expected : Expectation) :
    Reads s (name ++ left) (Reader.takeName expected) left (· = String.ofList name) := by
  have htake : Reads s (name ++ left) Reader.takeName? left (· = some (String.ofList name)) := by
    apply Reads.rest.bind_value
    rw [hname]
    have hskip : Reads s (name ++ left) (Reader.skip name.length) _ _ := Reads.skip name.length
    rw [List.drop_left] at hskip
    exact hskip.bind fun _ _ => .pure rfl
  apply htake.bind_value
  exact .pure rfl

theorem setting : Reads s text (read : Reader Setting) text (· = s) :=
  fun p hp hplain => ⟨s, p, rfl, hp, hplain, rfl⟩

theorem progress : Reads s text (get : Reader Progress) text Progress.Plain :=
  fun p hp hplain => ⟨p, p, rfl, hp, hplain, hplain⟩

theorem cursor : Reads s text Reader.cursor text (·.rest = text) :=
  fun p hp hplain => ⟨p.cursor, p, rfl, hp, hplain, hp⟩

theorem block?_none {name : String} (h : s.scanned.fragment? name = none) :
    Reads s text (Reader.block? name) text (· = none) := by
  apply Reads.setting.bind_value
  rw [h]
  exact .pure rfl

/-- The raw text before a stop, if its length does not depend on what stood before. -/
theorem takeRaw {stops : List Char} {n : Nat}
    (h : ∀ before, rawLength stops before 0 text = n) :
    Reads s text (Reader.takeRaw stops) (text.drop n) (·.1 = text.take n) := by
  refine Reads.cursor.bind ?_
  rintro c rfl
  dsimp only
  rw [h c.before]
  exact (Reads.skip n).bind fun _ _ => .pure rfl

end Reads

/-- Where no group is defined, every use of one stays as it is. -/
theorem expandVariables_plain (cs : List Char) : expandVariables {} cs = .ok cs := by
  fun_induction expandVariables {} cs with
  | case1 => rfl
  | case2 c rest hnone ih => rw [ih]; rfl
  | case3 c rest group key n hsome more hgroup ih =>
    rw [ih]
    simp [Except.map, more]
  | case4 => simp_all [Templates.group?]
  | case5 => simp_all [Templates.group?]

theorem Reads.expandedValue (cs : List Char) (span : Span) :
    Reads s text (Markup.expandedValue cs span) text (· = cs) := by
  refine Reads.progress.bind ?_
  rintro p ⟨htemplates, -⟩
  rw [htemplates, expandVariables_plain]
  exact .pure rfl

end Chtl.Markup
