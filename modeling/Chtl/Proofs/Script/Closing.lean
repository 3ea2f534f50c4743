import Chtl.Extension.Occurrence
import Chtl.Fragment.Piece
import Chtl.Proofs.Text.Basic
import Mathlib.Data.List.Basic
import Mathlib.Tactic.Common

/-!
# Where a brace group ends

Three readers look for the brace that closes a group: the one that cuts blocks out of a source, the
one that reads scripts and the one that takes the arguments of extensions. The last two agree on
every text. The first one knows no templates: it ends a script where the others would if the quotes
of templates were blanks.
-/

set_option autoImplicit false
set_option linter.all false

namespace Chtl.Script

open Text

/-! ## Strings and comments -/

theorem stringTailLength_cons {quote c : Char} (h : c ≠ '\\') (cs : List Char) :
    stringTailLength quote (c :: cs) = if c = quote then 1 else 1 + stringTailLength quote cs := by
  cases cs <;> simp [stringTailLength, h]

/-- Strings in scripts end where strings in a source do. -/
theorem stringTailLength_eq (quote : Char) (cs : List Char) :
    stringTailLength quote cs = Piece.stringLength quote cs := by
  fun_induction Piece.stringLength quote cs with
  | case1 => rfl
  | case2 => rfl
  | case3 c cs ih =>
    simp only [stringTailLength, ih, if_true]
    omega
  | case4 cs hend hescape =>
    rw [stringTailLength_cons (ne_of_not_followed hend hescape), if_pos rfl]
  | case5 c cs hend hescape hc ih =>
    rw [stringTailLength_cons (ne_of_not_followed hend hescape), if_neg hc, ih]

/-- The length of a string, template or comment, with the cases that the cutting of blocks has. -/
theorem literalLength?_cons (c : Char) (rest : List Char) :
    literalLength? (c :: rest) =
      if c = '"' ∨ c = '\x27' ∨ c = '\x60' then some (1 + Piece.stringLength c rest)
      else if c = '/' ∧ rest.head? = some '*' then
        some (2 + lengthThrough ['*', '/'] (rest.drop 1))
      else if c = '/' ∧ rest.head? = some '/' then some (1 + lineLength rest)
      else none := by
  by_cases hslash : c = '/'
  · subst hslash
    cases rest with
    | nil => rfl
    | cons d rest =>
      by_cases hstar : d = '*'
      · subst hstar
        rfl
      by_cases hline : d = '/'
      · subst hline
        simp [literalLength?, lineLength]
        omega
      · simp [literalLength?, hstar, hline]
  · simp [literalLength?, stringTailLength_eq, hslash]

/-! ## The quotes of templates -/

/-- The text with blanks for the quotes of templates. -/
def unticked (cs : List Char) : List Char := cs.map fun c => if c = '\x60' then ' ' else c

@[simp] theorem unticked_nil : unticked [] = [] := rfl

@[simp] theorem unticked_cons (c : Char) (cs : List Char) :
    unticked (c :: cs) = (if c = '\x60' then ' ' else c) :: unticked cs := rfl

theorem length_unticked (cs : List Char) : (unticked cs).length = cs.length := List.length_map _

theorem drop_unticked (n : Nat) (cs : List Char) : (unticked cs).drop n = unticked (cs.drop n) :=
  (List.map_drop ..).symm

theorem head?_unticked {c : Char} (h : c ≠ '\x60') (hblank : c ≠ ' ') (cs : List Char) :
    (unticked cs).head? = some c ↔ cs.head? = some c := by
  cases cs with
  | nil => simp
  | cons d cs =>
    by_cases hd : d = '\x60'
    · simp [hd, h.symm, hblank.symm]
    · simp [hd]

theorem stringLength_unticked {quote : Char} (h : quote ≠ '\x60') (hblank : quote ≠ ' ')
    (cs : List Char) : Piece.stringLength quote (unticked cs) = Piece.stringLength quote cs := by
  rw [← stringTailLength_eq, ← stringTailLength_eq]
  fun_induction stringTailLength quote cs with
  | case1 => rfl
  | case2 => rfl
  | case3 c rest ih => simp [stringTailLength, ih]
  | case4 rest hback => simp [h, stringTailLength_cons hback]
  | case5 c rest hback hc ih =>
    by_cases htick : c = '\x60'
    · simp [htick, stringTailLength_cons, hblank.symm, ih]
    · simp [htick, stringTailLength_cons hback, hc, ih]

theorem lineLength_unticked (cs : List Char) : lineLength (unticked cs) = lineLength cs := by
  induction cs with
  | nil => rfl
  | cons c cs ih =>
    by_cases htick : c = '\x60'
    · simpa [lineLength, htick] using ih
    · by_cases hline : c = '\n'
      · simp [lineLength, hline]
      · simpa [lineLength, htick, hline] using ih

theorem startsWith_unticked {needle : List Char} (h : ∀ c ∈ needle, c ≠ '\x60' ∧ c ≠ ' ')
    (cs : List Char) : startsWith (unticked cs) needle = startsWith cs needle := by
  induction needle generalizing cs with
  | nil => simp [startsWith, after?]
  | cons l ls ih =>
    obtain ⟨hl, hls⟩ := List.forall_mem_cons.mp h
    cases cs with
    | nil => rfl
    | cons c cs =>
      have hc : l = (if c = '\x60' then ' ' else c) ↔ l = c := by
        by_cases htick : c = '\x60'
        · simp [htick, hl]
        · simp [htick]
      simp only [startsWith, unticked_cons, after?, hc] at ih ⊢
      split_ifs
      · exact ih hls cs
      · rfl

theorem lengthThrough_unticked {needle : List Char} (h : ∀ c ∈ needle, c ≠ '\x60' ∧ c ≠ ' ')
    (cs : List Char) : lengthThrough needle (unticked cs) = lengthThrough needle cs := by
  have hfind : find? needle (unticked cs) = find? needle cs := by
    induction cs with
    | nil => rfl
    | cons c cs ih =>
      have hstarts := startsWith_unticked h (c :: cs)
      rw [unticked_cons] at hstarts
      simp [find?, hstarts, ih]
  rw [lengthThrough, lengthThrough, hfind, length_unticked]

/-- What is no template is as long without the quotes of templates. -/
theorem literalLength?_unticked {c : Char} (h : c ≠ '\x60') (rest : List Char) :
    literalLength? (c :: unticked rest) = literalLength? (c :: rest) := by
  have hstar := head?_unticked (c := '*') (by decide) (by decide) rest
  have hline := head?_unticked (c := '/') (by decide) (by decide) rest
  have hthrough : lengthThrough ['*', '/'] (unticked (rest.drop 1)) =
      lengthThrough ['*', '/'] (rest.drop 1) := lengthThrough_unticked (by simp) _
  rw [literalLength?_cons, literalLength?_cons, drop_unticked]
  simp only [hstar, hline, hthrough, lineLength_unticked]
  split_ifs with hquote
  · rw [stringLength_unticked h]
    rcases hquote with rfl | rfl | rfl <;> decide
  · rfl
  · rfl
  · rfl

/-! ## Groups -/

section

variable {c : Char} {rest : List Char} {n : Nat} (depth : Nat)

theorem groupLength?_literal (h : literalLength? (c :: rest) = some n) :
    groupLength? depth (c :: rest) =
      (groupLength? depth (rest.drop (n - 1))).map (· + (1 + (n - 1))) := by
  rw [groupLength?, h]

theorem groupLength?_char (h : literalLength? (c :: rest) = none) :
    groupLength? depth (c :: rest) =
      if c = '{' then (groupLength? (depth + 1) rest).map (· + 1)
      else if c = '}' then
        if depth ≤ 1 then some 1 else (groupLength? (depth - 1) rest).map (· + 1)
      else (groupLength? depth rest).map (· + 1) := by
  rw [groupLength?, h]

theorem groupLength?_ne_zero (cs : List Char) : groupLength? depth cs ≠ some 0 := by
  fun_induction groupLength? depth cs <;> simp

/-- The readers of scripts and of extensions agree about braces. -/
theorem closingLength?_braces (cs : List Char) :
    Extension.closingLength? '{' '}' depth cs = groupLength? depth cs := by
  fun_induction groupLength? depth cs with
  | case1 => simp [Extension.closingLength?]
  | case2 depth c rest n hliteral ih =>
    rw [Extension.closingLength?, hliteral]
    exact congrArg (Option.map _) ih
  | case3 depth rest hliteral ih => rw [Extension.closingLength?, hliteral, if_pos rfl, ih]
  | case4 depth rest hdepth hliteral hopen =>
    rw [Extension.closingLength?, hliteral, if_neg hopen, if_pos rfl, if_pos hdepth]
  | case5 depth rest hdepth hliteral hopen ih =>
    rw [Extension.closingLength?, hliteral, if_neg hopen, if_pos rfl, if_neg hdepth, ih]
  | case6 depth c rest hliteral hopen hclose ih =>
    rw [Extension.closingLength?, hliteral, if_neg hopen, if_neg hclose, ih]

/-- A script ends for the cutting of blocks where it ends for its reader without the quotes of
templates. -/
theorem groupLength?_unticked (cs : List Char) :
    groupLength? (depth + 1) (unticked cs) =
      (Piece.bodyLength? .script depth cs).map (· + 1) := by
  have hlater {found found' : Option Nat} (k : Nat) (h : found = found'.map (· + 1)) :
      found.map (· + k) = (found'.map (· + k)).map (· + 1) := by
    simp [h, Function.comp_def, Nat.add_right_comm]
  -- What the cutting of blocks passes over whole is a literal that is no template.
  have hliteral {depth n : Nat} {c : Char} {rest : List Char} (htick : c ≠ '\x60')
      (h : literalLength? (c :: rest) = some (1 + n))
      (ih : groupLength? (depth + 1) (unticked (rest.drop n)) =
        (Piece.bodyLength? .script depth (rest.drop n)).map (· + 1)) :
      groupLength? (depth + 1) (unticked (c :: rest)) =
        ((Piece.bodyLength? .script depth (rest.drop n)).map (· + (1 + n))).map (· + 1) := by
    rw [← literalLength?_unticked htick] at h
    rw [unticked_cons, if_neg htick, groupLength?_literal _ h, Nat.add_sub_cancel_left,
      drop_unticked]
    exact hlater _ ih
  fun_induction Piece.bodyLength? .script depth cs with
  | case1 => simp [groupLength?]
  | case2 depth c rest hquote n ih =>
    refine hliteral (by rcases hquote with rfl | rfl <;> decide) ?_ ih
    rw [literalLength?_cons, if_pos (hquote.imp_right .inl)]
  | case3 depth c rest hquote hstar n ih =>
    obtain ⟨rfl, hstar⟩ := hstar
    rw [show 2 + n = 1 + (1 + n) by omega]
    refine hliteral (by decide) ?_ ih
    rw [literalLength?_cons, if_neg (by decide), if_pos ⟨rfl, hstar⟩]
    congr 1
    omega
  | case4 depth c rest hquote hstar hline n ih =>
    obtain ⟨rfl, -, hline⟩ := hline
    refine hliteral (by decide) ?_ ih
    rw [literalLength?_cons, if_neg (by decide), if_neg hstar, if_pos ⟨rfl, hline⟩]
  | case5 depth rest _ _ _ ih =>
    rw [unticked_cons, if_neg (by decide), groupLength?_char _ (by simp [literalLength?])]
    exact hlater 1 ih
  | case6 rest =>
    rw [unticked_cons, if_neg (by decide), groupLength?_char _ (by simp [literalLength?])]
    rfl
  | case7 depth rest hdepth _ _ _ _ ih =>
    rw [unticked_cons, if_neg (by decide), groupLength?_char _ (by simp [literalLength?]),
      if_neg (by decide), if_pos rfl, if_neg (by omega),
      show depth + 1 - 1 = depth - 1 + 1 by omega]
    exact hlater 1 ih
  | case8 depth c rest hquote hstar hline hopen hclose ih =>
    by_cases htick : c = '\x60'
    · subst htick
      rw [unticked_cons, if_pos rfl, groupLength?_char _ (by simp [literalLength?]),
        if_neg (by decide), if_neg (by decide)]
      exact hlater 1 ih
    · have hnone : literalLength? (c :: unticked rest) = none := by
        rw [literalLength?_unticked htick, literalLength?_cons, if_neg (by tauto), if_neg hstar,
          if_neg (by tauto)]
      rw [unticked_cons, if_neg htick, groupLength?_char _ hnone, if_neg hopen, if_neg hclose]
      exact hlater 1 ih

/-- A group in which no quote of a template stands ends where it would without them. -/
theorem groupLength?_unticked_iff {cs : List Char} (h : '\x60' ∉ cs.take n) :
    groupLength? depth (unticked cs) = some n ↔ groupLength? depth cs = some n := by
  have hlater {found found' : Option Nat} {c : Char} {rest : List Char} {n : Nat} (j : Nat)
      (h : '\x60' ∉ (c :: rest).take n)
      (ih : ∀ {m : Nat}, '\x60' ∉ (rest.drop j).take m → (found = some m ↔ found' = some m)) :
      found.map (· + (1 + j)) = some n ↔ found'.map (· + (1 + j)) = some n := by
    simp only [Option.map_eq_some_iff]
    refine exists_congr fun m => and_congr_left ?_
    rintro rfl
    refine ih fun hmem => h ?_
    rw [show m + (1 + j) = (j + m) + 1 by omega, List.take_succ_cons]
    rw [List.take_drop] at hmem
    exact List.mem_cons_of_mem _ (List.mem_of_mem_drop hmem)
  -- At its first character a nonempty group has no template.
  have hfirst {depth n : Nat} {c : Char} {rest : List Char} (h : '\x60' ∉ (c :: rest).take n)
      (hfound : c ≠ '\x60' → (groupLength? depth (c :: unticked rest) = some n ↔
        groupLength? depth (c :: rest) = some n)) :
      groupLength? depth (unticked (c :: rest)) = some n ↔
        groupLength? depth (c :: rest) = some n := by
    cases n with
    | zero => exact iff_of_false (groupLength?_ne_zero _ _) (groupLength?_ne_zero _ _)
    | succ n =>
      have htick : c ≠ '\x60' := by
        rintro rfl
        exact h List.mem_cons_self
      rw [unticked_cons, if_neg htick]
      exact hfound htick
  induction depth, cs using groupLength?.induct generalizing n with
  | case1 depth => simp [groupLength?]
  | case2 depth c rest k hliteral ih =>
    refine hfirst h fun htick => ?_
    rw [groupLength?_literal _ hliteral,
      groupLength?_literal _ ((literalLength?_unticked htick rest).trans hliteral), drop_unticked]
    exact hlater _ h ih
  | case3 depth rest hnone ih =>
    refine hfirst h fun htick => ?_
    rw [groupLength?_char _ hnone, if_pos rfl,
      groupLength?_char _ ((literalLength?_unticked htick rest).trans hnone), if_pos rfl]
    exact hlater 0 h ih
  | case4 depth rest hdepth hnone hopen =>
    refine hfirst h fun htick => ?_
    rw [groupLength?_char _ hnone, if_neg hopen, if_pos rfl, if_pos hdepth,
      groupLength?_char _ ((literalLength?_unticked htick rest).trans hnone), if_neg hopen,
      if_pos rfl, if_pos hdepth]
  | case5 depth rest hdepth hnone hopen ih =>
    refine hfirst h fun htick => ?_
    rw [groupLength?_char _ hnone, if_neg hopen, if_pos rfl, if_neg hdepth,
      groupLength?_char _ ((literalLength?_unticked htick rest).trans hnone), if_neg hopen,
      if_pos rfl, if_neg hdepth]
    exact hlater 0 h ih
  | case6 depth c rest hnone hopen hclose ih =>
    refine hfirst h fun htick => ?_
    rw [groupLength?_char _ hnone, if_neg hopen, if_neg hclose,
      groupLength?_char _ ((literalLength?_unticked htick rest).trans hnone), if_neg hopen,
      if_neg hclose]
    exact hlater 0 h ih

end

/-- The length of the brace group at the front, as the cutting of blocks finds it for a script. -/
def blockLength? : List Char → Option Nat
  | '{' :: rest => (Piece.bodyLength? .script 0 rest).map (· + 2)
  | _ => none

theorem bracedLength?_brace (rest : List Char) :
    bracedLength? ('{' :: rest) = (groupLength? 1 rest).map (· + 1) := by
  rw [bracedLength?, List.head?_cons, if_pos rfl, groupLength?_char _ (by simp [literalLength?]),
    if_pos rfl]

theorem blockLength?_eq (rest : List Char) :
    blockLength? ('{' :: rest) = bracedLength? ('{' :: unticked rest) := by
  rw [bracedLength?_brace, groupLength?_unticked, blockLength?, Option.map_map]
  rfl

/-- The readers of scripts and of extensions agree about the end of every brace group. The cutting of
blocks agrees with them exactly about the groups that end in the same place without the quotes of
templates, and so about all that have none. -/
theorem group_ends_agree_iff (rest : List Char) :
    Extension.argumentsLength? ('{' :: rest) = bracedLength? ('{' :: rest) ∧
    (blockLength? ('{' :: rest) = bracedLength? ('{' :: rest) ↔
      bracedLength? ('{' :: unticked rest) = bracedLength? ('{' :: rest)) ∧
    ∀ n, '\x60' ∉ ('{' :: rest).take n →
      (blockLength? ('{' :: rest) = some n ↔ bracedLength? ('{' :: rest) = some n) := by
  refine ⟨?_, by rw [blockLength?_eq], fun n htick => ?_⟩
  · exact closingLength?_braces 0 ('{' :: rest)
  · rw [blockLength?_eq, bracedLength?, bracedLength?, List.head?_cons, List.head?_cons, if_pos rfl,
      if_pos rfl]
    exact groupLength?_unticked_iff 0 htick

/-- An apostrophe in a template opens a string for the cutting of blocks: the script never ends. -/
theorem block_end_behind_template :
    Piece.cut "script \x7b say(\x60it's\x60); \x7d".toList = .error ⟨.script, 0⟩ ∧
    blockLength? "\x7b say(\x60it's\x60); \x7d".toList = none ∧
    bracedLength? "\x7b say(\x60it's\x60); \x7d".toList = some 16 ∧
    Extension.argumentsLength? "\x7b say(\x60it's\x60); \x7d".toList = some 16 := by
  rw [String.toList_ofList, String.toList_ofList]
  decide +kernel

end Chtl.Script
