import Chtl.Proofs.Text.Basic

/-!
# Tokens of the page's code

The signs and operands that expressions of the page's code are made of. The longest sign that stands
at a place is taken. A row of tokens is not changed by what comes behind a blank or a closing
parenthesis.
-/

set_option autoImplicit false
set_option linter.all false

namespace Chtl.Js

open Text

/-- The signs of expressions. Increment and decrement are signs because the longest sign is taken,
but no expression here is built with them. -/
inductive Symbol where
  | leftParen
  | rightParen
  | question
  | colon
  | not
  | increment
  | decrement
  | plus
  | minus
  | times
  | divide
  | or
  | and
  | strictEq
  | strictNe
  | looseEq
  | looseNe
  | ge
  | le
  | gt
  | lt
  deriving DecidableEq, Repr

namespace Symbol

def text : Symbol → List Char
  | leftParen => ['(']
  | rightParen => [')']
  | question => ['?']
  | colon => [':']
  | not => ['!']
  | increment => ['+', '+']
  | decrement => ['-', '-']
  | plus => ['+']
  | minus => ['-']
  | times => ['*']
  | divide => ['/']
  | or => ['|', '|']
  | and => ['&', '&']
  | strictEq => ['=', '=', '=']
  | strictNe => ['!', '=', '=']
  | looseEq => ['=', '=']
  | looseNe => ['!', '=']
  | ge => ['>', '=']
  | le => ['<', '=']
  | gt => ['>']
  | lt => ['<']

/-- All signs, each before those that it begins with. -/
def all : List Symbol :=
  [strictEq, strictNe, looseEq, looseNe, ge, le, or, and, increment, decrement, leftParen,
    rightParen, question, colon, not, plus, minus, times, divide, gt, lt]

/-- The longest sign at the front of a text. -/
def at? (cs : List Char) : Option Symbol :=
  all.find? fun s => startsWith cs s.text

end Symbol

/-- A name, a number, a quoted text or an operand in double braces is one token with its text. -/
inductive Token where
  | atom (text : List Char)
  | symbol (s : Symbol)
  deriving DecidableEq, Repr

/-- What separates tokens. -/
def isSpace (c : Char) : Bool :=
  c == '\uFEFF' || (isBlank c && c != '\x85')

/-- What stands in numbers and in names with their properties. -/
def isWordPart (c : Char) : Bool :=
  isWordChar c || c == '$' || c == '.'

/-- Digits, and more digits behind a point if there is one. -/
def isNumeral (word : List Char) : Bool :=
  match word.dropWhile isAsciiDigit with
  | [] => true
  | c :: fraction => c == '.' && !fraction.isEmpty && fraction.all isAsciiDigit

/-- The characters up to and with the closing quote, if it is on the same line. -/
def quotedLength? (quote : Char) : List Char → Option Nat
  | [] => none
  | c :: cs =>
    if c = quote then some 1
    else if c = '\\' then
      match cs with
      | [] => none
      | _ :: rest => (quotedLength? quote rest).map (· + 2)
    else if c = '\n' ∨ c = '\r' then none
    else (quotedLength? quote cs).map (· + 1)

/-- How many characters behind its first one an operand takes up. -/
def atomLength? (c : Char) (cs : List Char) : Option Nat :=
  if c = '"' ∨ c = '\x27' then quotedLength? c cs
  else if c = '{' then
    match cs with
    | '{' :: code => (find? ['}', '}'] code).map (· + 3)
    | _ => none
  else
    let more := cs.takeWhile isWordPart
    if isWordPart c && c != '.' && (!isAsciiDigit c || isNumeral (c :: more)) then some more.length
    else none

/-- The token at the front of a text, and how many characters it has behind its first one. -/
def token? (c : Char) (cs : List Char) : Option (Token × Nat) :=
  match Symbol.at? (c :: cs) with
  | some s => some (.symbol s, s.text.length - 1)
  | none => (atomLength? c cs).map fun n => (.atom (c :: cs.take n), n)

/-- The tokens of a text, if it has nothing else. -/
def tokens (cs : List Char) : Option (List Token) :=
  match cs with
  | [] => some []
  | c :: rest =>
    if isSpace c then tokens rest
    else
      match token? c rest with
      | some (t, n) => (tokens (rest.drop n)).map (t :: ·)
      | none => none
termination_by cs.length
decreasing_by all_goals simp only [List.length_cons, List.length_drop]; omega

section

variable {c : Char} {rest : List Char}

theorem tokens_space (h : isSpace c = true) : tokens (c :: rest) = tokens rest := by
  rw [tokens, if_pos h]

theorem tokens_cons {t : Token} {n : Nat} (h : isSpace c = false) (ht : token? c rest = some (t, n)) :
    tokens (c :: rest) = (tokens (rest.drop n)).map (t :: ·) := by
  rw [tokens, if_neg (by simp [h]), ht]

end

/-! ## Ends of tokens -/

/-- Behind these a new token begins. -/
def Stops (c : Char) : Prop := c = ' ' ∨ c = ')'

section

variable {d : Char} (hd : Stops d) (more : List Char)

theorem startsWith_append {cs lead : List Char} (hlead : d ∉ lead) :
    startsWith (cs ++ d :: more) lead = startsWith cs lead := by
  induction lead generalizing cs with
  | nil => cases cs <;> rfl
  | cons l ls ih =>
    obtain ⟨hl, hls⟩ := not_or.mp (mt List.mem_cons.mpr hlead)
    cases cs with
    | nil => exact startsWith_cons_of_ne (Ne.symm hl) ls more
    | cons c cs =>
      rw [List.cons_append]
      by_cases hc : l = c
      · subst hc
        rw [startsWith_cons_self, startsWith_cons_self, ih hls]
      · rw [startsWith_cons_of_ne hc, startsWith_cons_of_ne hc]

include hd in
theorem Symbol.at?_append (c : Char) (cs : List Char) :
    at? (c :: (cs ++ d :: more)) = at? (c :: cs) := by
  have htail (s : Symbol) : d ∉ s.text.tail := by
    rcases hd with rfl | rfl <;> cases s <;> decide
  have heq (s : Symbol) :
      startsWith (c :: (cs ++ d :: more)) s.text = startsWith (c :: cs) s.text := by
    cases ht : s.text with
    | nil => rfl
    | cons l ls =>
      have hls : d ∉ ls := by simpa [ht] using htail s
      by_cases hc : l = c
      · subst hc
        rw [startsWith_cons_self, startsWith_cons_self, startsWith_append more hls]
      · rw [startsWith_cons_of_ne hc, startsWith_cons_of_ne hc]
  simp only [at?, heq]

theorem takeWhile_append {p : Char → Bool} (hp : p d = false) (cs : List Char) :
    (cs ++ d :: more).takeWhile p = cs.takeWhile p := by
  induction cs with
  | nil => simp [hp]
  | cons c cs ih =>
    by_cases hc : p c = true
    · simp [hc, ih]
    · simp [hc]

end

theorem quotedLength?_append {quote : Char} {cs : List Char} {n : Nat}
    (h : quotedLength? quote cs = some n) (more : List Char) :
    quotedLength? quote (cs ++ more) = some n ∧ n ≤ cs.length := by
  fun_induction quotedLength? quote cs generalizing n with
  | case1 | case3 | case5 => cases h
  | case2 cs =>
    cases h
    rw [List.cons_append, quotedLength?.eq_def]
    simp
  | case4 x rest hquote ih =>
    obtain ⟨m, hm, rfl⟩ := Option.map_eq_some_iff.mp h
    obtain ⟨hmore, hle⟩ := ih hm
    rw [List.cons_append, quotedLength?.eq_def]
    exact ⟨by simp [hquote, hmore], by simpa using hle⟩
  | case6 c cs hquote hescape hline ih =>
    obtain ⟨m, hm, rfl⟩ := Option.map_eq_some_iff.mp h
    obtain ⟨hmore, hle⟩ := ih hm
    rw [List.cons_append, quotedLength?.eq_def]
    exact ⟨by simp [hquote, hescape, hline, hmore], by simpa using hle⟩

section

variable {d : Char} (hd : Stops d) (more : List Char)

include hd

theorem atomLength?_append {c : Char} {cs : List Char} {n : Nat} (h : atomLength? c cs = some n) :
    atomLength? c (cs ++ d :: more) = some n ∧ n ≤ cs.length := by
  have hpart : isWordPart d = false := by
    rcases hd with rfl | rfl <;> decide
  unfold atomLength? at h ⊢
  split_ifs at h ⊢ with hquote hbrace
  · exact quotedLength?_append h (d :: more)
  · split at h
    · rename_i code
      obtain ⟨m, hm, rfl⟩ := Option.map_eq_some_iff.mp h
      obtain ⟨hmore, hle⟩ := find?_append hm (d :: more)
      simp only [List.cons_append, hmore, Option.map_some, List.length_cons, true_and]
      simp only [List.length_cons, List.length_nil] at hle
      omega
    · cases h
  · dsimp only at h ⊢
    rw [takeWhile_append more hpart]
    refine ⟨h, ?_⟩
    split_ifs at h
    cases h
    exact (List.takeWhile_sublist _).length_le

theorem token?_append {c : Char} {cs : List Char} {t : Token} {n : Nat}
    (h : token? c cs = some (t, n)) :
    token? c (cs ++ d :: more) = some (t, n) ∧ n ≤ cs.length := by
  unfold token? at h ⊢
  rw [Symbol.at?_append hd]
  split at h
  · rename_i s hs
    have hstarts : startsWith (c :: cs) s.text = true := by
      simpa using List.find?_some hs
    have hle := length_le_of_startsWith hstarts
    cases h
    refine ⟨rfl, ?_⟩
    rw [List.length_cons] at hle
    omega
  · obtain ⟨m, hm, hm'⟩ := Option.map_eq_some_iff.mp h
    cases hm'
    obtain ⟨hmore, hle⟩ := atomLength?_append hd more hm
    exact ⟨by simp [hmore, List.take_append_of_le_length hle], hle⟩

/-- A row of tokens ends where a blank or a closing parenthesis follows. -/
theorem tokens_append {cs : List Char} {ts : List Token} (h : tokens cs = some ts) :
    tokens (cs ++ d :: more) = (tokens (d :: more)).map (ts ++ ·) := by
  fun_induction tokens cs generalizing ts with
  | case1 =>
    cases h
    simp
  | case2 c cs hspace ih =>
    rw [List.cons_append, tokens_space hspace, ih h]
  | case3 c cs hspace t n ht ih =>
    obtain ⟨rest, hrest, rfl⟩ := Option.map_eq_some_iff.mp h
    obtain ⟨hmore, hle⟩ := token?_append hd more ht
    rw [List.cons_append, tokens_cons (by simpa using hspace) hmore,
      List.drop_append_of_le_length hle, ih hrest, Option.map_map]
    rfl
  | case4 c cs hspace ht => cases h

end

/-! ## Signs -/

theorem tokens_of_at? {c : Char} {cs : List Char} {s : Symbol} (hc : isSpace c = false)
    (h : Symbol.at? (c :: cs) = some s) :
    tokens (c :: cs) = (tokens (cs.drop (s.text.length - 1))).map (.symbol s :: ·) :=
  tokens_cons hc (by simp [token?, h])

/-- A sign before a blank. -/
theorem tokens_symbol (s : Symbol) (cs : List Char) :
    tokens (s.text ++ ' ' :: cs) = (tokens cs).map (.symbol s :: ·) := by
  obtain ⟨c, rest, ht, hc⟩ : ∃ c rest, s.text = c :: rest ∧ isSpace c = false := by
    cases s <;> exact ⟨_, _, rfl, by decide⟩
  have hat : Symbol.at? (s.text ++ ' ' :: cs) = some s := by
    cases s <;> rfl
  rw [ht, List.cons_append] at hat ⊢
  rw [tokens_of_at? hc hat, ht]
  simp [tokens_space (show isSpace ' ' = true by decide)]

/-- Two rows with a sign between them, set off by blanks. -/
theorem tokens_spaced (s : Symbol) {as bs : List Char} {ta tb : List Token}
    (ha : tokens as = some ta) (hb : tokens bs = some tb) :
    tokens (as ++ ' ' :: (s.text ++ ' ' :: bs)) = some (ta ++ .symbol s :: tb) := by
  rw [tokens_append (.inl rfl) _ ha, tokens_space (by decide), tokens_symbol, hb]
  rfl

theorem tokens_parens {cs : List Char} {ts : List Token} (h : tokens cs = some ts) :
    tokens ('(' :: (cs ++ [')'])) =
      some (Token.symbol .leftParen :: (ts ++ [Token.symbol .rightParen])) := by
  have hclose : tokens [')'] = some [.symbol .rightParen] := by
    rw [tokens_of_at? (s := .rightParen) (by decide) rfl]
    simp [tokens]
  rw [tokens_of_at? (s := .leftParen) (by decide) rfl]
  simp [Symbol.text, tokens_append (.inr rfl) [] h, hclose]

theorem tokens_not {cs : List Char} (h : cs.head? ≠ some '=') :
    tokens ('!' :: cs) = (tokens cs).map (.symbol .not :: ·) := by
  have hat : Symbol.at? ('!' :: cs) = some .not := by
    cases cs with
    | nil => rfl
    | cons c cs =>
      have hc : '=' ≠ c := fun heq => h (heq ▸ rfl)
      simp [Symbol.at?, Symbol.all, Symbol.text, startsWith, after?, hc]
  rw [tokens_of_at? (by decide) hat]
  rfl

theorem tokens_minus {cs : List Char} (h : cs.head? ≠ some '-') :
    tokens ('-' :: cs) = (tokens cs).map (.symbol .minus :: ·) := by
  have hat : Symbol.at? ('-' :: cs) = some .minus := by
    cases cs with
    | nil => rfl
    | cons c cs =>
      have hc : '-' ≠ c := fun heq => h (heq ▸ rfl)
      simp [Symbol.at?, Symbol.all, Symbol.text, startsWith, after?, hc]
  rw [tokens_of_at? (by decide) hat]
  rfl

theorem tokens_decrement (cs : List Char) :
    tokens ('-' :: '-' :: cs) = (tokens cs).map (.symbol .decrement :: ·) := by
  rw [tokens_of_at? (s := .decrement) (by decide) rfl]
  rfl

/-- A minus does not keep a text from being a row of tokens. -/
theorem exists_tokens_minus (cs : List Char) {ts : List Token} (h : tokens cs = some ts) :
    ∃ ts', tokens ('-' :: cs) = some ts' := by
  by_cases hminus : cs.head? = some '-'
  · obtain ⟨rest, rfl⟩ : ∃ rest, cs = '-' :: rest := by
      cases cs <;> simp_all
    -- The minus forms a decrement with the one behind it, so what is left was read before as well.
    obtain ⟨ts', h'⟩ : ∃ ts', tokens rest = some ts' := by
      by_cases hminus' : rest.head? = some '-'
      · obtain ⟨rest', rfl⟩ : ∃ rest', rest = '-' :: rest' := by
          cases rest <;> simp_all
        rw [tokens_decrement] at h
        obtain ⟨ts', h', -⟩ := Option.map_eq_some_iff.mp h
        exact exists_tokens_minus rest' h'
      · rw [tokens_minus hminus'] at h
        obtain ⟨ts', h', -⟩ := Option.map_eq_some_iff.mp h
        exact ⟨ts', h'⟩
    exact ⟨_, by rw [tokens_decrement, h']; rfl⟩
  · exact ⟨_, by rw [tokens_minus hminus, h]; rfl⟩
termination_by cs.length
decreasing_by
  subst_vars
  rw [List.length_cons, List.length_cons]
  omega

end Chtl.Js
