import Chtl.Proofs.Js.Grammar
import Chtl.Style.Value
import Mathlib.Data.List.TakeWhile

/-!
# Values as operands

The literal of every value is an operand that holds together: a word, a quoted text, or a numeral
with at most one minus before it.
-/

set_option autoImplicit false
set_option linter.all false

namespace Chtl

open Text

namespace Js

/-! ## Words -/

/-- A plain name or a numeral. -/
structure IsWord (word : List Char) : Prop where
  parts : ∀ c ∈ word, isWordPart c = true
  begins : ∃ c ∈ word.head?, isAsciiAlnum c = true ∧ (isAsciiDigit c = true → isNumeral word = true)

/-- No sign begins like a word or a quoted text. -/
theorem Symbol.at?_eq_none {c : Char} (cs : List Char) (h : ∀ s : Symbol, s.text.head? ≠ some c) :
    Symbol.at? (c :: cs) = none := by
  refine List.find?_eq_none.mpr fun s _ hs => h s ?_
  obtain ⟨rest, hrest⟩ := Option.isSome_iff_exists.mp hs
  have heq := after?_eq_some_iff.mp hrest
  cases ht : s.text with
  | nil => cases s <;> cases ht
  | cons x xs =>
    rw [ht] at heq
    rw [(List.cons.inj heq).1]
    rfl

theorem isSpace_of_isAsciiAlnum {c : Char} (h : isAsciiAlnum c = true) : isSpace c = false := by
  have hname : isNameChar c = true := by
    simp [isNameChar, h]
  have hblank : isBlank c = false := by
    by_contra hblank
    rw [not_isNameChar_of_isBlank (by simpa using hblank)] at hname
    cases hname
  have hmark : c ≠ '\uFEFF' := by
    rintro rfl
    revert h
    decide
  simp [isSpace, hblank, hmark]

theorem tokens_word {word : List Char} (h : IsWord word) : tokens word = some [.atom word] := by
  obtain ⟨c, hc, halnum, hnumeral⟩ := h.begins
  obtain ⟨rest, rfl⟩ := List.head?_eq_some_iff.mp hc
  have hsign (s : Symbol) : s.text.head? ≠ some c := by
    intro hs
    cases s <;> (cases hs; revert halnum; decide)
  have hne {x : Char} (hx : isAsciiAlnum x = false) : c ≠ x := by
    rintro rfl
    rw [hx] at halnum
    cases halnum
  have hrest : rest.takeWhile isWordPart = rest :=
    List.takeWhile_eq_self_iff.mpr fun x hx => h.parts x (List.mem_cons_of_mem c hx)
  have hok : (isWordPart c && c != '.' && (!isAsciiDigit c || isNumeral (c :: rest))) = true := by
    have hpart := h.parts c List.mem_cons_self
    have hdot : c ≠ '.' := hne rfl
    cases hdigit : isAsciiDigit c with
    | false => simp [hpart, hdot]
    | true => simp [hpart, hdot, hnumeral hdigit]
  have hatom : atomLength? c rest = some rest.length := by
    have hquote : ¬ (c = '"' ∨ c = '\x27') := by
      simp [hne (x := '"') rfl, hne (x := '\x27') rfl]
    unfold atomLength?
    rw [if_neg hquote, if_neg (hne rfl)]
    simp only [hrest, hok, if_true]
  rw [tokens_cons (isSpace_of_isAsciiAlnum halnum) (t := .atom (c :: rest)) (n := rest.length)
    (by simp [token?, Symbol.at?_eq_none rest hsign, hatom])]
  simp [tokens]

/-! ## Quoted texts -/

theorem quotedLength?_pair (x : Char) (rest : List Char) :
    quotedLength? '"' ('\\' :: x :: rest) = (quotedLength? '"' rest).map (· + 2) := rfl

/-- A character that stands for itself in a quoted text. -/
def IsPlain (c : Char) : Prop := c ≠ '"' ∧ c ≠ '\\' ∧ c ≠ '\n' ∧ c ≠ '\r'

theorem quotedLength?_plain {c : Char} (hc : IsPlain c) (rest : List Char) :
    quotedLength? '"' (c :: rest) = (quotedLength? '"' rest).map (· + 1) := by
  obtain ⟨hquote, hescape, hfeed, hreturn⟩ := hc
  rw [quotedLength?.eq_def]
  simp [hquote, hescape, hfeed, hreturn]

theorem isPlain_hexDigit {n : Nat} (h : n < 16) : IsPlain (Json.hexDigit n) := by
  revert n
  unfold IsPlain
  decide

/-- A character of a text, as it is written between quotes, does not end the quotation. -/
theorem quotedLength?_escape (c : Char) (rest : List Char) :
    quotedLength? '"' (Json.escape c ++ rest) =
      (quotedLength? '"' rest).map (· + (Json.escape c).length) := by
  fun_cases Json.escape c with
  | case8 =>
    have hzero : IsPlain '0' := by
      unfold IsPlain
      decide
    have hhigh : IsPlain (Json.hexDigit (c.toNat / 16)) := isPlain_hexDigit (by omega)
    have hlow : IsPlain (Json.hexDigit (c.toNat % 16)) := isPlain_hexDigit (by omega)
    simp only [List.cons_append, List.nil_append, quotedLength?_pair, quotedLength?_plain hzero,
      quotedLength?_plain hhigh, quotedLength?_plain hlow, Option.map_map]
    rfl
  | case9 hquote hescape _ _ hfeed _ hreturn =>
    exact quotedLength?_plain ⟨hquote, hescape, hfeed, hreturn⟩ rest
  | _ => exact quotedLength?_pair _ rest

theorem quotedLength?_body (cs : List Char) :
    quotedLength? '"' (cs.flatMap Json.escape ++ ['"']) =
      some (cs.flatMap Json.escape ++ ['"']).length := by
  induction cs with
  | nil => rfl
  | cons c cs ih =>
    rw [List.flatMap_cons, List.append_assoc, quotedLength?_escape, ih, Option.map_some,
      Nat.add_comm, ← List.length_append]

theorem readsAs_quote (s : String) (k : Nat) :
    ReadsAs k (Json.quote s).toList (.atom (Json.quote s).toList) := by
  have hsign (s : Symbol) : s.text.head? ≠ some '"' := by
    cases s <;> decide
  refine ⟨_, ?_, .atom _⟩
  rw [Json.quote, String.toList_ofList, tokens_cons (by decide)
    (t := .atom ('"' :: (s.toList.flatMap Json.escape ++ ['"'])))
    (n := (s.toList.flatMap Json.escape ++ ['"']).length)]
  · rw [List.drop_length, tokens, Option.map_some]
  · simp [token?, Symbol.at?_eq_none _ hsign, atomLength?, quotedLength?_body]

theorem readsAs_word {word : List Char} (h : IsWord word) (k : Nat) : ReadsAs k word (.atom word) :=
  ⟨_, tokens_word h, .atom word⟩

/-! ## Numbers -/

/-- A row of digits. -/
structure IsDigits (cs : List Char) : Prop where
  ne_nil : cs ≠ []
  digits : ∀ c ∈ cs, isAsciiDigit c = true

theorem isDigits_zero : IsDigits "0".toList :=
  ⟨by decide, List.all_eq_true.mp (by decide)⟩

theorem isDigits_toDigits (n : Nat) : IsDigits (Nat.toDigits 10 n) :=
  ⟨Nat.toDigits_ne_nil, fun _ => Nat.isDigit_of_mem_toDigits (b := 10) (by decide) (by decide)⟩

theorem isWordPart_of_isAsciiDigit {c : Char} (h : isAsciiDigit c = true) : isWordPart c = true := by
  have hlt : c.toNat < 128 := by
    simp only [isAsciiDigit, Bool.and_eq_true, decide_eq_true_eq] at h
    exact Nat.lt_of_le_of_lt (show c.toNat ≤ 57 from h.2) (by decide)
  simp [isWordPart, isWordChar, hlt, isAsciiAlnum, h]

theorem IsDigits.begins {cs : List Char} (h : IsDigits cs) (rest : List Char)
    (hnumeral : isNumeral (cs ++ rest) = true) (hparts : ∀ c ∈ rest, isWordPart c = true) :
    IsWord (cs ++ rest) := by
  obtain ⟨c, cs, rfl⟩ := List.exists_cons_of_ne_nil h.ne_nil
  refine ⟨fun x hx => ?_, c, rfl, ?_, fun _ => hnumeral⟩
  · rcases List.mem_append.mp hx with hx | hx
    · exact isWordPart_of_isAsciiDigit (h.digits x hx)
    · exact hparts x hx
  · simp [isAsciiAlnum, h.digits c List.mem_cons_self]

theorem IsDigits.isWord {cs : List Char} (h : IsDigits cs) : IsWord cs := by
  have hnumeral : isNumeral (cs ++ []) = true := by
    rw [List.append_nil, isNumeral, List.dropWhile_eq_nil_iff.mpr h.digits]
  simpa using h.begins [] hnumeral (by simp)

theorem IsDigits.isWord_point {whole fraction : List Char} (hw : IsDigits whole)
    (hf : IsDigits fraction) : IsWord (whole ++ '.' :: fraction) := by
  have hdrop : (whole ++ '.' :: fraction).dropWhile isAsciiDigit = '.' :: fraction := by
    rw [List.dropWhile_append_of_pos hw.digits]
    rfl
  have hnumeral : isNumeral (whole ++ '.' :: fraction) = true := by
    rw [isNumeral, hdrop]
    simpa [hf.ne_nil] using hf.digits
  refine hw.begins _ hnumeral (List.forall_mem_cons.mpr ⟨by decide, fun x hx => ?_⟩)
  exact isWordPart_of_isAsciiDigit (hf.digits x hx)

theorem isWord_positional (d : Decimal.Digits) : IsWord d.positional := by
  have hdigits := isDigits_toDigits d.digits
  unfold Decimal.Digits.positional
  dsimp only
  split_ifs with hexponent hplaces
  · refine IsDigits.isWord ⟨by simp [hdigits.ne_nil], fun c hc => ?_⟩
    rcases List.mem_append.mp hc with hc | hc
    · exact hdigits.digits c hc
    · rw [List.eq_of_mem_replicate hc]
      rfl
  · refine IsDigits.isWord_point ⟨?_, fun c hc => hdigits.digits c (List.mem_of_mem_take hc)⟩
      ⟨?_, fun c hc => hdigits.digits c (List.mem_of_mem_drop hc)⟩
    · exact List.ne_nil_of_length_pos (by rw [List.length_take]; omega)
    · exact List.ne_nil_of_length_pos (by rw [List.length_drop]; omega)
  · have hnull : IsDigits ['0'] := isDigits_zero
    refine IsDigits.isWord_point hnull ⟨by simp [hdigits.ne_nil], fun c hc => ?_⟩
    rcases List.mem_append.mp hc with hc | hc
    · rw [List.eq_of_mem_replicate hc]
      rfl
    · exact hdigits.digits c hc

/-- A word with at most one minus before it. -/
def IsSigned (cs : List Char) : Prop :=
  ∃ word, IsWord word ∧ (cs = word ∨ cs = '-' :: word)

theorem isSigned_text (x : Float) : IsSigned (Decimal.text x).toList := by
  have hzero : IsWord "0".toList := isDigits_zero.isWord
  have hinf : IsWord "inf".toList := ⟨List.all_eq_true.mp (by decide), 'i', rfl, rfl, by decide⟩
  have hnan : IsWord "NaN".toList := ⟨List.all_eq_true.mp (by decide), 'N', rfl, rfl, by decide⟩
  have hsign {p : Prop} [Decidable p] {word : String} (h : IsWord word.toList) :
      IsSigned ((if p then "-" else "") ++ word).toList := by
    split_ifs <;> exact ⟨word.toList, h, by simp⟩
  unfold Decimal.text
  extract_lets bits fraction biased sign target
  by_cases hspecial : biased = 2047
  · rw [if_pos hspecial]
    by_cases hinfinite : fraction = 0
    · rw [if_pos hinfinite]
      exact hsign hinf
    · rw [if_neg hinfinite]
      exact ⟨_, hnan, .inl rfl⟩
  rw [if_neg hspecial]
  by_cases hnull : biased = 0 ∧ fraction = 0
  · rw [if_pos hnull]
    exact hsign hzero
  · rw [if_neg hnull]
    refine hsign ?_
    rw [String.toList_ofList]
    exact isWord_positional _

theorem isSigned_numberText (x : Float) : IsSigned (numberText x).toList := by
  unfold numberText
  split_ifs
  · exact ⟨_, isDigits_zero.isWord, .inl rfl⟩
  · exact isSigned_text x

theorem IsWord.head_ne_minus {word : List Char} (h : IsWord word) : word.head? ≠ some '-' := by
  obtain ⟨c, hc, halnum, -⟩ := h.begins
  intro hsame
  rw [hsame] at hc
  cases hc
  cases halnum

end Js

/-- The tree of the literal of a value: an atom, or a minus before one. -/
def Value.tree (v : Value) : Js.Tree :=
  match v.toJs.toList with
  | '-' :: word => .unary .minus (.atom word)
  | text => .atom text

theorem Value.tree_eq_atom {v : Value} (h : v.toJs.toList.head? ≠ some '-') :
    v.tree = .atom v.toJs.toList := by
  unfold tree
  split
  · rename_i word heq
    rw [heq] at h
    exact absurd rfl h
  · rfl

namespace Js

theorem readsAs_value (v : Value) : ReadsAs tight v.toJs.toList v.tree := by
  cases v with
  | number value unit =>
    obtain ⟨word, hword, htext | htext⟩ := isSigned_numberText value
    · have htext : (Value.number value unit).toJs.toList = word := htext
      rw [Value.tree_eq_atom (htext ▸ hword.head_ne_minus), htext]
      exact readsAs_word hword tight
    · have htext : (Value.number value unit).toJs.toList = '-' :: word := htext
      have htree : (Value.number value unit).tree = .unary .minus (.atom word) := by
        simp only [Value.tree, htext]
      obtain ⟨ts, hts, hreads⟩ := readsAs_word hword tight
      have hminus : Symbol.minus.isPrefix = true := rfl
      rw [htree, htext]
      exact ⟨_, by rw [tokens_minus hword.head_ne_minus, hts, Option.map_some],
        .unary hminus hreads⟩
  | str value =>
    have hhead : (Value.str value).toJs.toList.head? ≠ some '-' := by
      rw [Value.toJs, Json.quote, String.toList_ofList]
      simp
    rw [Value.tree_eq_atom hhead]
    exact readsAs_quote value tight
  | bool value =>
    have hword : IsWord (boolText value).toList := by
      cases value <;> exact ⟨List.all_eq_true.mp (by decide), _, rfl, rfl, by decide⟩
    have htree : (Value.bool value).tree = .atom (boolText value).toList :=
      Value.tree_eq_atom hword.head_ne_minus
    rw [htree]
    exact readsAs_word hword tight

theorem exists_readsAs_value (v : Value) : ∃ t, ReadsAs tight v.toJs.toList t :=
  ⟨_, readsAs_value v⟩

end Js

end Chtl
