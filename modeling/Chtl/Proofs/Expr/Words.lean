import Chtl.Proofs.Expr.Form
import Chtl.Proofs.Expr.Spans
import Chtl.Proofs.Js.Braced
import Chtl.Proofs.Text.Word
import Mathlib.Data.List.DropRight

/-!
# The tokens of words

Each word of a form is read as its tokens when a blank or nothing follows it. Within a reference the
name in front of the point ends there, so what a name needs behind it is only that no character of a
name comes next. The tokens of spaced words are then laid out one after another, with room for a
blank between them.
-/

set_option autoImplicit false
set_option linter.all false

namespace Chtl.Expr

open Text

/-! ## Characters -/

theorem not_isAsciiDigit_of_isNameStart {c : Char} (h : isNameStart c = true) :
    isAsciiDigit c = false := by
  have hle (a b : Char) : a ≤ b ↔ a.toNat ≤ b.toNat := Iff.rfl
  simp only [isNameStart, isAsciiLetter, isAsciiUpper, isAsciiLower, Bool.or_eq_true,
    Bool.and_eq_true, decide_eq_true_eq, beq_iff_eq, hle] at h
  simp only [isAsciiDigit, Bool.and_eq_false_iff, decide_eq_false_iff_not, hle]
  rcases h with h | rfl
  · simp only [show 'A'.toNat = 65 from rfl, show 'a'.toNat = 97 from rfl,
      show '9'.toNat = 57 from rfl] at h ⊢
    omega
  · decide

theorem isNameChar_of_isAsciiDigit {c : Char} (h : isAsciiDigit c = true) :
    isNameChar c = true := by
  simp [isNameChar, isAsciiAlnum, h]

theorem isNameStart_of_isAsciiLetter {c : Char} (h : isAsciiLetter c = true) :
    isNameStart c = true := by
  simp [isNameStart, h]

theorem not_isBlank_of_isNameChar {c : Char} (h : isNameChar c = true) : ¬ isBlank c = true :=
  fun hblank => Bool.false_ne_true ((not_isNameChar_of_isBlank hblank).symm.trans h)

theorem takeWhile_append_of_stop {p : Char → Bool} {cs rest : List Char} (hcs : cs.all p = true)
    (hrest : ∀ c ∈ rest.head?, p c = false) : (cs ++ rest).takeWhile p = cs := by
  rw [List.takeWhile_append_of_pos (List.all_eq_true.mp hcs)]
  cases rest with
  | nil => exact List.append_nil cs
  | cons c rest => rw [List.takeWhile_cons_of_neg (by simp [hrest c rfl]), List.append_nil]

/-! ## Pieces of a text -/

/-- In front of `rest` the piece is read as one lexeme, wherever it stands. -/
def ReadsAs (piece rest : List Char) (lexeme : Lexeme) : Prop :=
  ∀ offset, tokens offset (piece ++ rest) =
    (tokens (offset + size piece) rest).map (⟨lexeme, ⟨offset, offset + size piece⟩⟩ :: ·)

/-- No name goes on here. -/
def Parted (rest : List Char) : Prop := ∀ c ∈ rest.head?, isNameChar c = false

/-- A blank or nothing comes next. -/
def Apart (rest : List Char) : Prop := ∀ c ∈ rest.head?, c = ' '

theorem Apart.parted {rest : List Char} (h : Apart rest) : Parted rest := by
  intro c hc
  rw [h c hc]
  rfl

theorem Apart.eq {rest : List Char} (h : Apart rest) : rest = [] ∨ ∃ cs, rest = ' ' :: cs := by
  cases rest with
  | nil => exact .inl rfl
  | cons c cs => exact .inr ⟨cs, by rw [h c rfl]⟩

variable {rest : List Char}

theorem readsAs_of_lexemeAt {c : Char} {cs : List Char} {lexeme : Lexeme}
    (hc : ¬ isBlank c = true) (h : lexemeAt c (cs ++ rest) = .ok (lexeme, cs.length)) :
    ReadsAs (c :: cs) rest lexeme := by
  intro offset
  have hread := tokens_lexeme offset hc h
  rwa [List.take_left, List.drop_left] at hread

/-! ## Names -/

theorem Name.nameAt_append (name : Name) (h : Parted rest) :
    nameAt (name.text ++ rest) = name.text := by
  have htrimmed : List.rdropWhile (· == '-') name.text = name.text := by
    rw [List.rdropWhile_eq_self_iff]
    intro hne
    have hends := name.ends
    rw [List.getLast?_eq_getLast_of_ne_nil hne] at hends
    simpa using hends
  rw [nameAt, takeWhile_append_of_stop name.parts h]
  exact htrimmed

theorem Identifier.text_eq (name : Identifier) :
    ∃ c cs, name.text = c :: cs ∧ isNameStart c = true := by
  obtain ⟨c, hc, hstart⟩ := (Option.any_eq_true _ _).mp name.begins
  obtain ⟨cs, hcs⟩ := List.head?_eq_some_iff.mp hc
  exact ⟨c, cs, hcs, hstart⟩

theorem readsAs_hash (name : Name) (h : Parted rest) :
    ReadsAs ('#' :: name.text) rest (.hash (String.ofList name.text)) := by
  refine readsAs_of_lexemeAt (by decide) ?_
  have hne : name.text.isEmpty = false := by
    have hends := name.ends
    cases htext : name.text with
    | nil => simp [htext] at hends
    | cons => rfl
  simp [lexemeAt, name.nameAt_append h, hne, show isAsciiDigit '#' = false from rfl]

theorem readsAs_dot (name : Identifier) (h : Parted rest) :
    ReadsAs ('.' :: name.text) rest (.dot (String.ofList name.text)) := by
  refine readsAs_of_lexemeAt (by decide) ?_
  have hname := name.nameAt_append h
  obtain ⟨c, cs, htext, hstart⟩ := name.text_eq
  rw [htext, List.cons_append] at hname
  simp [lexemeAt, hname, htext, hstart, not_isAsciiDigit_of_isNameStart hstart,
    show isAsciiDigit '.' = false from rfl]

theorem readsAs_ident (name : Identifier) (h : Parted rest) :
    ReadsAs name.text rest (.ident (String.ofList name.text)) := by
  have hname := name.nameAt_append h
  obtain ⟨c, cs, htext, hstart⟩ := name.text_eq
  rw [htext, List.cons_append] at hname
  rw [htext]
  refine readsAs_of_lexemeAt (not_isBlank_of_isNameChar (isNameChar_of_isNameStart hstart)) ?_
  have hne {d : Char} (hd : isNameStart d = false) : c ≠ d := by
    rintro rfl
    exact Bool.false_ne_true (hd.symm.trans hstart)
  simp [lexemeAt, hname, hstart, not_isAsciiDigit_of_isNameStart hstart,
    hne (d := '.') rfl, hne (d := '"') rfl, hne (d := '\x27') rfl, hne (d := '{') rfl,
    hne (d := '#') rfl]

/-! ## Numbers -/

theorem Numeral.split_append (n : Numeral) {tail : List Char}
    (h : ∀ c ∈ tail.head?, isAsciiDigit c = false ∧ c ≠ '.') :
    Decimal.split (n.text ++ tail) = (n.whole, n.fraction, n.text.length) := by
  obtain ⟨whole, fraction, digits, -⟩ := n
  rw [List.all_append, Bool.and_eq_true] at digits
  obtain ⟨hwhole, hfraction⟩ := digits
  have hdigit : ∀ c ∈ tail.head?, isAsciiDigit c = false := fun c hc => (h c hc).1
  by_cases hempty : fraction = []
  · subst hempty
    simp only [Numeral.text, if_true, List.append_nil]
    unfold Decimal.split
    rw [takeWhile_append_of_stop hwhole hdigit]
    dsimp only
    rw [List.drop_left]
    -- a point behind the digits would be taken for the one of the numeral
    split
    · exact absurd rfl (h _ rfl).2
    · rfl
  · simp only [Numeral.text, if_neg hempty, List.append_assoc, List.cons_append]
    unfold Decimal.split
    rw [takeWhile_append_of_stop hwhole (by simp [isAsciiDigit])]
    dsimp only
    rw [List.drop_left]
    simp only
    rw [takeWhile_append_of_stop hfraction hdigit, if_neg (by simpa using hempty),
      List.length_append, List.length_cons]
    simp [Nat.add_assoc, Nat.add_comm 1]

theorem Measure.head_of_append (unit : Measure) (h : Apart rest) :
    ∀ c ∈ (unit.text ++ rest).head?, isAsciiDigit c = false ∧ c ≠ '.' := by
  have hrest : ∀ c ∈ rest.head?, isAsciiDigit c = false ∧ c ≠ '.' := by
    intro c hc
    rw [h c hc]
    decide
  rcases unit.valid with htext | hletters
  · simp [htext, isAsciiDigit]
  · cases htext : unit.text with
    | nil => exact hrest
    | cons d ds =>
      rw [htext] at hletters
      have hstart := isNameStart_of_isAsciiLetter (List.all_eq_true.mp hletters d List.mem_cons_self)
      rintro _ ⟨⟩
      refine ⟨not_isAsciiDigit_of_isNameStart hstart, ?_⟩
      rintro rfl
      exact absurd hstart (by decide)

theorem numberAt_append (n : Numeral) (unit : Measure) (h : Apart rest) :
    numberAt (n.text ++ (unit.text ++ rest)) =
      (.number n.value (String.ofList unit.text), n.text.length + unit.text.length) := by
  unfold numberAt
  rw [n.split_append (unit.head_of_append h)]
  dsimp only
  rw [List.drop_left]
  rcases unit.valid with htext | hletters
  · rw [htext]
    rfl
  · have hunit : (unit.text ++ rest).takeWhile isAsciiLetter = unit.text := by
      refine takeWhile_append_of_stop hletters fun c hc => ?_
      rw [h c hc]
      rfl
    split
    · rename_i cs hpercent
      have hhead : '%' = ' ' ∨ isAsciiLetter '%' = true := by
        cases htext : unit.text with
        | nil =>
          rw [htext, List.nil_append] at hpercent
          exact .inl (h _ (by rw [hpercent]; rfl))
        | cons d ds =>
          rw [htext, List.cons_append, List.cons.injEq] at hpercent
          rw [htext, hpercent.1] at hletters
          exact .inr (List.all_eq_true.mp hletters _ List.mem_cons_self)
      exact absurd hhead (by decide)
    · rw [hunit]
      rfl

theorem Numeral.text_eq (n : Numeral) : ∃ c cs, n.text = c :: cs ∧ ¬ isBlank c = true ∧
    ∀ more, (isAsciiDigit c || (c == '.' && (cs ++ more).head?.any isAsciiDigit)) = true := by
  obtain ⟨whole, fraction, digits, hne⟩ := n
  cases whole with
  | cons c cs =>
    have hc := List.all_eq_true.mp digits c (by simp)
    exact ⟨c, _, rfl, not_isBlank_of_isNameChar (isNameChar_of_isAsciiDigit hc), by simp [hc]⟩
  | nil =>
    cases fraction with
    | nil => exact absurd rfl hne
    | cons c cs => exact ⟨'.', c :: cs, rfl, by decide, by simp [List.all_eq_true.mp digits c (by simp)]⟩

theorem readsAs_number (n : Numeral) (unit : Measure) (h : Apart rest) :
    ReadsAs (n.text ++ unit.text) rest (.number n.value (String.ofList unit.text)) := by
  obtain ⟨c, cs, htext, hc, hnumber⟩ := n.text_eq
  have hread := numberAt_append n unit h
  rw [htext, List.cons_append] at hread
  rw [htext, List.cons_append]
  refine readsAs_of_lexemeAt hc ?_
  rw [lexemeAt, List.append_assoc, if_pos (hnumber _), hread]
  simp [Nat.add_right_comm]

/-! ## Strings and operands in braces -/

theorem stringAt?_escaped (cs rest : List Char) :
    stringAt? '"' (cs.flatMap Static.quotedChar ++ '"' :: rest) =
      some (cs, (cs.flatMap Static.quotedChar).length + 1) := by
  induction cs with
  | nil => rfl
  | cons c cs ih =>
    rw [List.flatMap_cons, List.append_assoc]
    by_cases hc : c = '\\' ∨ c = '"'
    · rw [Static.quotedChar, if_pos hc]
      simp only [List.cons_append, List.nil_append, stringAt?, ih, Option.map_some,
        List.length_cons]
    · obtain ⟨hb, hq⟩ := not_or.mp hc
      rw [Static.quotedChar, if_neg hc]
      simp only [List.cons_append, List.nil_append, List.length_cons]
      rw [stringAt?, if_neg hq, ih, Option.map_some]
      · exact fun h => absurd h hb
      · exact fun a b h => absurd h hb

theorem readsAs_str (s rest) : ReadsAs (Static.quoted s) rest (.str s) := by
  refine readsAs_of_lexemeAt (by decide) ?_
  have hread := stringAt?_escaped s.toList rest
  rw [List.append_assoc]
  simp [lexemeAt, Static.escaped, hread, show isAsciiDigit '"' = false from rfl]

/-- The blanks inside the braces keep a brace at the end of the code apart from them. -/
theorem Code.closed_blanks (code : Code) : Js.Closed (' ' :: (code.text ++ [' '])) := by
  have hblank : ' ' ∉ ['}', '}'] := by decide
  have hshape : ' ' :: (code.text ++ [' ']) ++ ['}'] = [] ++ ' ' :: (code.text ++ ' ' :: ['}']) := by
    simp
  rw [Js.Closed, hshape, infix_append_cons_iff hblank, infix_append_cons_iff hblank]
  rintro (h | h | h)
  · exact absurd h (by decide)
  · exact code.closed h
  · exact absurd h (by decide)

theorem trimRight_isPrefix (cs : List Char) : trimRight cs <+: cs := by
  rw [← List.reverse_suffix, trimRight, List.reverse_reverse]
  exact List.dropWhile_suffix _

theorem Code.trim_blanks (code : Code) : trim (' ' :: (code.text ++ [' '])) = code.text := by
  have hright : trimRight (trimLeft code.text) = code.text := code.trimmed
  have hleft : trimLeft code.text = code.text := by
    refine (List.dropWhile_suffix _).eq_of_length_le ?_
    have hle := (trimRight_isPrefix (trimLeft code.text)).length_le
    rwa [hright] at hle
  have hcode : trimLeft (code.text ++ [' ']) = code.text ++ [' '] := by
    cases htext : code.text with
    | nil => exact absurd htext code.nonempty
    | cons c cs =>
      rw [htext, trimLeft, List.dropWhile_eq_self_iff] at hleft
      exact List.dropWhile_cons_of_neg (hleft (by simp))
  calc trim (' ' :: (code.text ++ [' '])) = trimRight (trimLeft (code.text ++ [' '])) := rfl
    _ = trimRight (code.text ++ [' ']) := by rw [hcode]
    _ = trimRight code.text := by simp [trimRight, show isBlank ' ' = true from rfl]
    _ = code.text := by rwa [hleft] at hright

theorem readsAs_dynamic (code : Code) (rest : List Char) :
    ReadsAs (Atom.dynamic code).text rest (.dynamic (String.ofList code.text)) := by
  refine readsAs_of_lexemeAt (by decide) ?_
  have hfind := Js.find?_of_closed code.closed_blanks rest
  have hshape : ' ' :: (code.text ++ [' ', '}', '}']) ++ rest =
      ' ' :: (code.text ++ [' ']) ++ '}' :: '}' :: rest := by simp
  have hne : code.text.isEmpty = false := by simpa using code.nonempty
  rw [List.cons_append, hshape]
  unfold lexemeAt
  rw [if_neg (by simp [isAsciiDigit]), if_neg (by decide), if_pos ⟨rfl, rfl⟩]
  simp only [List.drop_succ_cons, List.drop_zero, hfind, List.take_left, code.trim_blanks, hne]
  simp

/-! ## Signs -/

theorem readsAs_sign (s : Sign) (h : Apart rest) : ReadsAs s.text rest (.sign s) := by
  rcases h.eq with rfl | ⟨cs, rfl⟩ <;> cases s <;> exact readsAs_of_lexemeAt (by decide) rfl

theorem readsAs_opening : ReadsAs ['('] rest .leftParen :=
  readsAs_of_lexemeAt (by decide) rfl

theorem readsAs_closing : ReadsAs [')'] rest .rightParen :=
  readsAs_of_lexemeAt (by decide) rfl

/-! ## Words -/

/-- The tokens of an atom at an offset. Those of a reference touch each other. -/
def Atom.tokens (offset : Nat) (a : Atom) : List Token :=
  let span : Span := ⟨offset, offset + size a.text⟩
  match a with
  | number n unit => [⟨.number n.value (String.ofList unit.text), span⟩]
  | str value => [⟨.str value, span⟩]
  | bool value => [⟨.ident (if value then "true" else "false"), span⟩]
  | ident name _ => [⟨.ident (String.ofList name.text), span⟩]
  | reference target property =>
    let touch := offset + size target.text
    [⟨target.selector.lexeme, ⟨offset, touch⟩⟩,
      ⟨.dot (String.ofList property.text), ⟨touch, touch + size ('.' :: property.text)⟩⟩]
  | dynamic code => [⟨.dynamic (String.ofList code.text), span⟩]

def Word.tokens (offset : Nat) (w : Word) : List Token :=
  let span : Span := ⟨offset, offset + size w.text⟩
  match w with
  | atom a => a.tokens offset
  | sign s => [⟨.sign s, span⟩]
  | opening => [⟨.leftParen, span⟩]
  | closing => [⟨.rightParen, span⟩]

theorem Target.readsAs (t : Target) (h : Parted rest) :
    ReadsAs t.text rest t.selector.lexeme := by
  cases t with
  | id name => exact readsAs_hash name h
  | cls name => exact readsAs_dot name h
  | tag name => exact readsAs_ident name h

theorem Atom.tokens_append (a : Atom) (h : Apart rest) (offset : Nat) :
    Expr.tokens offset (a.text ++ rest) =
      (Expr.tokens (offset + size a.text) rest).map (a.tokens offset ++ ·) := by
  cases a with
  | number n unit => exact readsAs_number n unit h offset
  | str value => exact readsAs_str value rest offset
  | bool value =>
    have hname := readsAs_ident (Identifier.truth value) h.parted offset
    cases value <;> exact hname
  | ident name => exact readsAs_ident name h.parted offset
  | reference target property =>
    have hpoint : Parted ('.' :: property.text ++ rest) := by
      rintro _ ⟨⟩
      rfl
    have htarget := target.readsAs hpoint offset
    have hproperty := readsAs_dot property h.parted (offset + size target.text)
    rw [Atom.text, List.append_assoc, size_append, ← Nat.add_assoc, htarget, hproperty]
    cases Expr.tokens (offset + size target.text + size ('.' :: property.text)) rest <;> rfl
  | dynamic code => exact readsAs_dynamic code rest offset

theorem Word.tokens_append (w : Word) (h : Apart rest) (offset : Nat) :
    Expr.tokens offset (w.text ++ rest) =
      (Expr.tokens (offset + size w.text) rest).map (w.tokens offset ++ ·) := by
  cases w with
  | atom a => exact a.tokens_append h offset
  | sign s => exact readsAs_sign s h offset
  | opening => exact readsAs_opening offset
  | closing => exact readsAs_closing offset

/-- The tokens of words from an offset on, with room for a blank behind each word. -/
def layout (offset : Nat) : List Word → List Token
  | [] => []
  | w :: ws => w.tokens offset ++ layout (offset + size w.text + 1) ws

theorem layout_append (offset : Nat) (ws vs : List Word) :
    ∃ next, layout offset (ws ++ vs) = layout offset ws ++ layout next vs := by
  induction ws generalizing offset with
  | nil => exact ⟨offset, rfl⟩
  | cons w ws ih =>
    obtain ⟨next, hnext⟩ := ih (offset + size w.text + 1)
    exact ⟨next, by rw [List.cons_append, layout, hnext, layout, List.append_assoc]⟩

/-- Spaced words are read as their tokens. -/
theorem tokens_spaced (offset : Nat) (ws : List Word) :
    tokens offset (spaced ws) = .ok (layout offset ws) := by
  induction ws generalizing offset with
  | nil => exact tokens_nil offset
  | cons w ws ih =>
    cases ws with
    | nil =>
      have hend : Apart [] := by
        rintro _ ⟨⟩
      have hread := w.tokens_append hend offset
      rw [List.append_nil, tokens_nil] at hread
      simpa [spaced, layout, Except.map] using hread
    | cons v ws =>
      have hspaced : spaced (w :: v :: ws) = w.text ++ ' ' :: spaced (v :: ws) := by
        simp [spaced, List.intercalate]
      rw [hspaced, w.tokens_append (by rintro _ ⟨⟩; rfl), tokens_blank _ rfl, ih]
      rfl

end Chtl.Expr
