import Chtl.Markup.Parse
import Chtl.Proofs.Fragment.Delimited
import Chtl.Proofs.Markup.Quotes

/-!
# Where brace groups in styles end

The braces of a style are matched twice: when its block is cut out of the source, and when the body
of a rule is read. Both pass over strings, and over the same ones. The cutting passes over comments
too, so it ends a group where the reading would end it if the comments were blanks.
-/

set_option autoImplicit false
set_option linter.all false

namespace Chtl

open Text

namespace Markup

/-! ## Strings -/

/-- Strings in markup end where strings in a source do. -/
theorem quotedLength_eq (quote : Char) (cs : List Char) :
    quotedLength quote false cs = Piece.stringLength quote cs := by
  fun_induction Piece.stringLength quote cs with
  | case1 => rfl
  | case2 => rfl
  | case3 c cs ih =>
    simp only [quotedLength, if_true, ih]
    omega
  | case4 cs hend hescape =>
    rw [quotedLength, if_neg (ne_of_not_followed hend hescape), if_pos rfl]
  | case5 c cs hend hescape hc ih =>
    rw [quotedLength, if_neg (ne_of_not_followed hend hescape), if_neg hc, ih]

theorem stringLength_le (quote : Char) (cs : List Char) :
    Piece.stringLength quote cs ≤ cs.length := by
  fun_induction Piece.stringLength quote cs <;> simp only [List.length_cons, List.length_nil] <;>
    omega

/-- A string is as long whatever follows its end. -/
theorem stringLength_front {quote : Char} {cs more : List Char}
    (h : cs.drop (Piece.stringLength quote cs) = [] → more = []) :
    Piece.stringLength quote (cs.take (Piece.stringLength quote cs) ++ more) =
      Piece.stringLength quote cs := by
  fun_induction Piece.stringLength quote cs with
  | case1 => rw [h rfl]; rfl
  | case2 => rw [h rfl]; rfl
  | case3 c cs ih =>
    rw [Nat.add_comm 2, List.drop_succ_cons, List.drop_succ_cons] at h
    rw [Nat.add_comm 2, List.take_succ_cons, List.take_succ_cons, List.cons_append,
      List.cons_append, Piece.stringLength, ih h, Nat.add_comm]
  | case4 cs hend hescape =>
    have hback := ne_of_not_followed hend hescape
    rw [List.take_succ_cons, List.take_zero, List.singleton_append, Piece.stringLength_cons hback,
      if_pos rfl]
  | case5 c cs hend hescape hc ih =>
    have hback := ne_of_not_followed hend hescape
    rw [Nat.add_comm 1, List.drop_succ_cons] at h
    rw [Nat.add_comm 1, List.take_succ_cons, List.cons_append, Piece.stringLength_cons hback,
      if_neg hc, ih h, Nat.add_comm]

/-! ## Comments -/

/-- The text with blanks for the comments that stand outside strings. -/
def uncommented (cs : List Char) : List Char :=
  match cs with
  | [] => []
  | c :: rest =>
    if c = '"' ∨ c = '\x27' then
      let n := Piece.stringLength c rest
      c :: (rest.take n ++ uncommented (rest.drop n))
    else if c = '/' ∧ rest.head? = some '*' then
      let n := lengthThrough ['*', '/'] (rest.drop 1)
      List.replicate (2 + n) ' ' ++ uncommented (rest.drop (1 + n))
    else c :: uncommented rest
termination_by cs.length
decreasing_by all_goals simp only [List.length_cons, List.length_drop]; omega

theorem uncommented_char {c : Char} {rest : List Char} (hquote : ¬ (c = '"' ∨ c = '\x27'))
    (hcomment : ¬ (c = '/' ∧ rest.head? = some '*')) :
    uncommented (c :: rest) = c :: uncommented rest := by
  rw [uncommented, if_neg hquote, if_neg hcomment]

section

variable (depth : Nat)

theorem balancedLength?_quote {c : Char} (h : c = '"' ∨ c = '\x27') (rest : List Char) :
    balancedLength? depth (c :: rest) =
      (balancedLength? depth (rest.drop (Piece.stringLength c rest))).map
        (· + (1 + Piece.stringLength c rest)) := by
  rw [balancedLength?, if_pos h, quotedLength_eq]

/-- What is neither a quote nor a brace is passed over. -/
theorem balancedLength?_plain {c : Char} (hquote : ¬ (c = '"' ∨ c = '\x27')) (hopen : c ≠ '{')
    (hclose : c ≠ '}') (rest : List Char) :
    balancedLength? depth (c :: rest) = (balancedLength? depth rest).map (· + 1) := by
  rw [balancedLength?, if_neg hquote, if_neg hopen, if_neg hclose]

theorem balancedLength?_blanks (n : Nat) (cs : List Char) :
    balancedLength? depth (List.replicate n ' ' ++ cs) =
      (balancedLength? depth cs).map (· + n) := by
  induction n with
  | zero => simp
  | succ n ih =>
    rw [List.replicate_succ, List.cons_append,
      balancedLength?_plain depth (by simp) (by simp) (by simp), ih, Option.map_map]
    rfl

/-- The cutting ends a group where the reading ends it without the comments. -/
theorem balancedLength?_uncommented (cs : List Char) :
    balancedLength? depth (uncommented cs) = Piece.bodyLength? .style depth cs := by
  fun_induction Piece.bodyLength? .style depth cs with
  | case1 => rw [uncommented, balancedLength?]
  | case2 depth c rest hquote n ih =>
    have hstring : Piece.stringLength c (rest.take n ++ uncommented (rest.drop n)) = n :=
      stringLength_front fun hend => by rw [hend, uncommented]
    have hpast : (rest.take n ++ uncommented (rest.drop n)).drop n = uncommented (rest.drop n) :=
      List.drop_left' (List.length_take_of_le (stringLength_le c rest))
    rw [uncommented, if_pos hquote, balancedLength?_quote depth hquote, hstring, hpast, ih]
  | case3 depth c rest hquote hcomment n ih =>
    rw [uncommented, if_neg hquote, if_pos hcomment, balancedLength?_blanks, ih]
  | case4 depth c rest hquote hstar hline => cases hline.2.1
  | case5 depth rest hquote hstar hline ih =>
    rw [uncommented_char hquote hstar, balancedLength?, if_neg hquote, if_pos rfl, ih]
  | case6 rest hquote hstar hline hopen =>
    rw [uncommented_char hquote hstar, balancedLength?, if_neg hquote, if_neg hopen, if_pos rfl,
      if_pos rfl]
  | case7 depth rest hdepth hquote hstar hline hopen ih =>
    rw [uncommented_char hquote hstar, balancedLength?, if_neg hquote, if_neg hopen, if_pos rfl,
      if_neg hdepth, ih]
  | case8 depth c rest hquote hstar hline hopen hclose ih =>
    rw [uncommented_char hquote hstar, balancedLength?_plain depth hquote hopen hclose, ih]

/-- A group in which no comment opens ends in the same place for both. -/
theorem balancedLength?_eq_some_iff {cs : List Char} {n : Nat}
    (h : ¬ ['/', '*'] <:+: cs.take n) :
    balancedLength? depth cs = some n ↔ Piece.bodyLength? .style depth cs = some n := by
  have hlater {found found' : Option Nat} {c : Char} {rest : List Char} {n : Nat} (j : Nat)
      (h : ¬ ['/', '*'] <:+: (c :: rest).take n)
      (ih : ∀ {m : Nat}, ¬ ['/', '*'] <:+: (rest.drop j).take m →
        (found = some m ↔ found' = some m)) :
      found.map (· + (1 + j)) = some n ↔ found'.map (· + (1 + j)) = some n := by
    simp only [Option.map_eq_some_iff]
    refine exists_congr fun m => and_congr_left ?_
    rintro rfl
    refine ih fun hpart => h ?_
    rw [show m + (1 + j) = (j + m) + 1 by omega, List.take_succ_cons]
    rw [List.take_drop] at hpart
    exact (hpart.trans (List.drop_suffix j _).isInfix).trans (List.suffix_cons c _).isInfix
  fun_induction Piece.bodyLength? .style depth cs generalizing n with
  | case1 => simp [balancedLength?]
  | case2 depth c rest hquote k =>
    rename_i ih
    rw [balancedLength?_quote depth hquote]
    exact hlater k h ih
  | case3 depth c rest hquote hcomment k =>
    obtain ⟨rfl, hstar⟩ := hcomment
    obtain ⟨more, rfl⟩ := List.head?_eq_some_iff.mp hstar
    have hshort : n < 2 := by
      by_contra hlong
      obtain ⟨m, rfl⟩ : ∃ m, n = m + 2 := ⟨n - 2, by omega⟩
      exact h (List.prefix_append ['/', '*'] (more.take m)).isInfix
    refine iff_of_false ?_ ?_
    · rw [balancedLength?_plain depth hquote (by simp) (by simp),
        balancedLength?_plain depth (by simp) (by simp) (by simp), Option.map_map]
      intro heq
      obtain ⟨m, -, rfl⟩ := Option.map_eq_some_iff.mp heq
      exact absurd hshort (Nat.not_lt_of_le (Nat.le_add_left 2 m))
    · intro heq
      obtain ⟨m, -, rfl⟩ := Option.map_eq_some_iff.mp heq
      omega
  | case4 depth c rest hquote hstar hline => cases hline.2.1
  | case5 depth rest hquote hstar hline ih =>
    rw [balancedLength?, if_neg hquote, if_pos rfl]
    exact hlater 0 h ih
  | case6 rest hquote hstar hline hopen =>
    rw [balancedLength?, if_neg hquote, if_neg hopen, if_pos rfl, if_pos rfl]
  | case7 depth rest hdepth hquote hstar hline hopen ih =>
    rw [balancedLength?, if_neg hquote, if_neg hopen, if_pos rfl, if_neg hdepth]
    exact hlater 0 h ih
  | case8 depth c rest hquote hstar hline hopen hclose ih =>
    rw [balancedLength?_plain depth hquote hopen hclose]
    exact hlater 0 h ih

end

/-! ## Ends -/

/-- Where the cutting of a style block ends a group that is entered at the cursor. -/
def Cursor.groupEnd? (c : Cursor) : Option Nat :=
  (Piece.bodyLength? .style 0 c.rest).map fun n => (c.advance (n + 1)).offset

/-- Where the reading ends the group. -/
def Cursor.bodyEnd? (c : Cursor) : Option Nat :=
  (balancedLength? 0 c.rest).map fun n => (c.advance (n + 1)).offset

theorem Reader.unexpected_ne_ok {α : Type} (s : Setting) (p : Progress) (expected : Expectation)
    (r : α × Progress) : (Reader.unexpected expected : Reader α) s p ≠ .ok r := by
  unfold Reader.unexpected
  change (if p.cursor.rest.isEmpty = true then _ else _ : Reader α) s p ≠ .ok r
  split_ifs <;> exact nofun

theorem Reader.run_rest_bind {α : Type} (f : List Char → Reader α) (s : Setting) (p : Progress) :
    (Reader.rest >>= f) s p = f p.cursor.rest s p := rfl

/-- A body is taken exactly if a brace closes it, and the cursor then stands behind that brace. -/
theorem takeBalanced_ends_iff {s : Setting} {p : Progress} {e : Nat} :
    (∃ body q, Reader.takeBalanced s p = .ok (body, q) ∧ q.cursor.offset = e) ↔
      p.cursor.bodyEnd? = some e := by
  rw [Reader.takeBalanced, Reader.run_rest_bind, Cursor.bodyEnd?]
  cases balancedLength? 0 p.cursor.rest with
  | none =>
    refine iff_of_false ?_ (by simp)
    rintro ⟨body, q, hok, -⟩
    exact Reader.unexpected_ne_ok s _ .closeBrace _ hok
  | some n =>
    constructor
    · rintro ⟨body, q, hok, rfl⟩
      cases hok
      rfl
    · intro h
      exact ⟨_, _, rfl, Option.some.inj h⟩

/-- Within a text different lengths end at different offsets. -/
theorem Cursor.In.eq_of_offset_advance {text : List Char} {c : Cursor} (hc : c.In text) {m n : Nat}
    (hm : m ≤ c.rest.length) (hn : n ≤ c.rest.length)
    (h : (c.advance m).offset = (c.advance n).offset) : m = n := by
  have hrest : c.rest.drop m = c.rest.drop n :=
    congrArg Cursor.rest ((hc.advance m).eq_of_offset (hc.advance n) h)
  have hlength := congrArg List.length hrest
  rw [List.length_drop, List.length_drop] at hlength
  omega

/-- The ends of a group are the same offset exactly if they are the same number of characters on. -/
theorem Cursor.In.ends_eq_iff {text : List Char} {c : Cursor} (hc : c.In text) :
    c.bodyEnd? = c.groupEnd? ↔ balancedLength? 0 c.rest = Piece.bodyLength? .style 0 c.rest := by
  constructor
  · intro h
    unfold bodyEnd? groupEnd? at h
    have hwithin {n : Nat} (hbrace : c.rest.drop n = '}' :: c.rest.drop (n + 1)) :
        n + 1 ≤ c.rest.length := by
      have hlength := congrArg List.length hbrace
      rw [List.length_cons, List.length_drop, List.length_drop] at hlength
      omega
    cases hbody : balancedLength? 0 c.rest with
    | none =>
      rw [hbody] at h
      exact (Option.map_eq_none_iff.mp h.symm).symm
    | some m =>
      rw [hbody, Option.map_some] at h
      obtain ⟨n, hgroup, hend⟩ := Option.map_eq_some_iff.mp h.symm
      have hlengths := hc.eq_of_offset_advance (hwithin (Piece.drop_bodyLength? hgroup))
        (hwithin (drop_balancedLength? hbody)) hend
      rw [hgroup, Nat.add_right_cancel hlengths]
  · intro h
    rw [bodyEnd?, groupEnd?, h]

/-- Behind a brace there is one place to read from. The reading of a body ends where the cutting of a
style block ends the group exactly if the reading would end there with blanks for the comments, and
so wherever none opens before the end. -/
theorem style_group_ends_agree_iff {text : List Char} {i : Nat}
    (hi : (bytes text)[i]? = some (UInt8.ofNat '{'.toNat)) :
    ∃ c : Cursor, (∀ d : Cursor, d.In text ∧ d.offset = i + 1 ↔ d = c) ∧ c.before = some '{' ∧
      (∀ (s : Setting) (p : Progress), p.cursor = c →
        ((∀ e, (∃ body q, Reader.takeBalanced s p = .ok (body, q) ∧ q.cursor.offset = e) ↔
            c.groupEnd? = some e) ↔
          balancedLength? 0 c.rest = balancedLength? 0 (uncommented c.rest))) ∧
      ∀ n, ¬ ['/', '*'] <:+: c.rest.take n →
        (balancedLength? 0 c.rest = some n ↔ Piece.bodyLength? .style 0 c.rest = some n) := by
  obtain ⟨before, rest, rfl, rfl⟩ := exists_split_of_getElem?_bytes (by decide) hi
  have hin : Cursor.In (before ++ '{' :: rest) ⟨some '{', size before + 1, rest⟩ :=
    ⟨before ++ ['{'], by simp, by simp; rfl, by simp⟩
  refine ⟨_, fun d => ⟨fun ⟨hd, hoffset⟩ => hd.eq_of_offset hin hoffset, ?_⟩, rfl, ?_, ?_⟩
  · rintro rfl
    exact ⟨hin, rfl⟩
  · intro s p hp
    simp only [takeBalanced_ends_iff, hp]
    rw [balancedLength?_uncommented, ← hin.ends_eq_iff]
    exact ⟨fun h => Option.ext h, fun h e => by rw [h]⟩
  · exact fun n hplain => balancedLength?_eq_some_iff 0 hplain

/-- Braces in a string and a comment behind a rule. -/
theorem style_group_ends_agree_iff_rule :
    ∃ text, text = ".a \x7b content: \"\x7d\" \x7d /* \x7d */".toList ∧
      (bytes text)[3]? = some (UInt8.ofNat '{'.toNat) ∧
      ∃ c : Cursor, (∀ d : Cursor, d.In text ∧ d.offset = 4 ↔ d = c) ∧ c.before = some '{' ∧
        (∀ (s : Setting) (p : Progress), p.cursor = c →
          ((∀ e, (∃ body q, Reader.takeBalanced s p = .ok (body, q) ∧ q.cursor.offset = e) ↔
              c.groupEnd? = some e) ↔
            balancedLength? 0 c.rest = balancedLength? 0 (uncommented c.rest))) ∧
        ∀ n, ¬ ['/', '*'] <:+: c.rest.take n →
          (balancedLength? 0 c.rest = some n ↔ Piece.bodyLength? .style 0 c.rest = some n) := by
  obtain ⟨text, htext⟩ : ∃ text, text =
      ".a \x7b content: \"\x7d\" \x7d /* \x7d */".toList := ⟨_, rfl⟩
  have hbyte : (bytes text)[3]? = some (UInt8.ofNat '{'.toNat) := by
    rw [htext, String.toList_ofList]
    rfl
  exact ⟨text, htext, hbyte, style_group_ends_agree_iff hbyte⟩

/-- An apostrophe in a comment opens a string for the reading alone, and the rule that holds it has
no end. The source is cut, but the document is not read. -/
theorem style_group_ends_behind_comment :
    ∃ text, text =
        "p \x7b style \x7b .a \x7b /* it's */ color: red; \x7d \x7d \x7d".toList ∧
      (bytes text)[15]? = some (UInt8.ofNat '{'.toNat) ∧
      (∃ c : Cursor, c.In text ∧ c.offset = 16 ∧ c.groupEnd? = some 41 ∧ c.bodyEnd? = none ∧
        ∀ (s : Setting) (p : Progress), p.cursor = c →
          ∀ e, ¬ ∃ body q, Reader.takeBalanced s p = .ok (body, q) ∧ q.cursor.offset = e) ∧
      ∃ s, scan text = .ok s ∧ s.fragments.map (·.kind) = [.markup, .style, .markup] ∧
        ∃ e, Document.ofScanned s = .error e ∧ e.span = ⟨42, 42⟩ := by
  obtain ⟨text, htext⟩ : ∃ text, text =
      "p \x7b style \x7b .a \x7b /* it's */ color: red; \x7d \x7d \x7d".toList := ⟨_, rfl⟩
  have hnone : (Cursor.advance ⟨none, 0, text⟩ 16).bodyEnd? = none := by
    rw [htext, String.toList_ofList]
    decide +kernel
  refine ⟨text, htext, ?_, ⟨_, (Cursor.In.start _).advance 16, ?_, ?_, hnone, ?_⟩, ?_⟩
  · rw [htext, String.toList_ofList]
    decide +kernel
  · rw [htext, String.toList_ofList]
    decide +kernel
  · rw [htext, String.toList_ofList]
    decide +kernel
  · intro s p hp e
    rw [takeBalanced_ends_iff, hp, hnone]
    exact nofun
  · rw [htext, String.toList_ofList]
    decide +kernel

end Markup

end Chtl
