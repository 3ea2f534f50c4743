import Chtl.Markup.Cursor
import Chtl.Proofs.Fragment.Cut
import Chtl.Proofs.Text.Run

/-!
# Cursors between names

A cursor is apart if no name goes on across it. Blanks, comments, names, raw texts and bodies in
braces all end at such a place, so what a reader takes for a name is a whole run of the text.
-/

set_option autoImplicit false
set_option linter.all false

namespace Chtl.Markup

open Text

theorem eq_takeWhile_of_name? {cs name : List Char} (h : name? cs = some name) :
    name = cs.takeWhile isNameChar ∧ name ≠ [] := by
  cases cs with
  | nil => cases h
  | cons c cs =>
    rw [name?] at h
    split_ifs at h with hc
    cases h
    rw [List.takeWhile_cons_of_pos (isNameChar_of_isNameStart hc)]
    exact ⟨rfl, List.cons_ne_nil _ _⟩

/-- Behind a name stands what is left of the text. -/
theorem eq_append_of_name? {cs name : List Char} (h : name? cs = some name) :
    cs = name ++ cs.drop name.length := by
  obtain ⟨rfl, -⟩ := eq_takeWhile_of_name? h
  exact (List.prefix_iff_eq_append.mp (List.takeWhile_prefix _)).symm

theorem take_of_name? {cs name : List Char} (h : name? cs = some name) :
    cs.take name.length = name := by
  conv_lhs => rw [eq_append_of_name? h]
  rw [List.take_left]

theorem hiddenCommentLength?_pos {cs : List Char} {n : Nat}
    (h : hiddenCommentLength? cs = some n) : 0 < n := by
  unfold hiddenCommentLength? at h
  split at h
  · cases h
    omega
  · cases h
    unfold lengthThrough
    split
    · simp
    · simp
  · cases h

/-- Raw text ends before a stop, or with the text. -/
theorem head?_drop_rawLength (stops : List Char) (before : Option Char) (depth : Nat)
    (cs : List Char) :
    ∀ x ∈ (cs.drop (rawLength stops before depth cs)).head?, x ∈ stops := by
  fun_induction rawLength stops before depth cs with
  | case1 => simp
  | case2 before depth c rest operand hstop =>
    intro x hx
    obtain rfl : c = x := by simpa using hx
    simpa using hstop.2.1
  | case3 before depth c rest operand hgoes along deeper ih =>
    rw [Nat.add_assoc, Nat.add_comm 1, List.drop_succ_cons, ← List.drop_drop]
    exact ih

/-- A body in braces ends before the brace that closes it. -/
theorem drop_balancedLength? {depth : Nat} {cs : List Char} {n : Nat}
    (h : balancedLength? depth cs = some n) : cs.drop n = '}' :: cs.drop (n + 1) := by
  fun_induction balancedLength? depth cs generalizing n with
  | case1 => cases h
  | case2 depth c rest _ k =>
    rename_i ih
    exact Piece.drop_later rfl h fun m hm => ih hm
  | case3 depth rest _ ih => exact Piece.drop_later (j := 0) rfl h fun m hm => ih hm
  | case4 rest =>
    cases h
    rfl
  | case5 depth rest _ _ _ ih => exact Piece.drop_later (j := 0) rfl h fun m hm => ih hm
  | case6 depth c rest _ _ _ ih => exact Piece.drop_later (j := 0) rfl h fun m hm => ih hm

/-- What stands between the name of an attribute and its value is part of no name. -/
theorem exists_separator {next : Option Char} (h : (next = some ':' || next = some '=') = true) :
    ∃ x, next = some x ∧ isNameChar x = false := by
  rw [Bool.or_eq_true, decide_eq_true_eq, decide_eq_true_eq] at h
  exact h.elim (fun h => ⟨_, h, by decide⟩) fun h => ⟨_, h, by decide⟩

namespace Cursor

/-- No name goes on across the cursor. -/
def Apart (c : Cursor) : Prop :=
  c.before.any isNameChar = false ∨ c.rest.head?.any isNameChar = false

/-- How often a word is a run of the text that is left. -/
def runs (word : List Char) (c : Cursor) : Nat := Text.runs word c.before c.rest

theorem advance_zero (c : Cursor) : c.advance 0 = c := by
  simp [advance]

theorem advance_add (c : Cursor) (m n : Nat) : c.advance (m + n) = (c.advance m).advance n := by
  simp [advance, List.take_add, List.getLast?_append, Nat.add_assoc, Option.or_assoc]

theorem rest_advance (c : Cursor) (n : Nat) : (c.advance n).rest = c.rest.drop n := rfl

theorem runs_advance_le (word : List Char) (c : Cursor) (n : Nat) :
    (c.advance n).runs word ≤ c.runs word :=
  runs_drop_le word c.before c.rest n

variable {c : Cursor}

theorem apart_advance_one {x : Char} (h : c.rest.head? = some x) (hx : isNameChar x = false) :
    (c.advance 1).Apart := by
  obtain ⟨more, hmore⟩ := List.head?_eq_some_iff.mp h
  left
  simp [advance, hmore, hx]

theorem apart_name {name : List Char} (h : name? c.rest = some name) :
    (c.advance name.length).Apart := by
  right
  rw [rest_advance, (eq_takeWhile_of_name? h).1]
  exact head?_drop_takeWhile isNameChar c.rest

/-- Before a name that begins between names there is no other one. -/
theorem Apart.before_of_name (hc : c.Apart) {name : List Char} (h : name? c.rest = some name) :
    c.before.any isNameChar = false := by
  obtain ⟨rfl, hne⟩ := eq_takeWhile_of_name? h
  refine hc.resolve_right ?_
  cases hrest : c.rest with
  | nil => simp [hrest] at hne
  | cons x more =>
    intro hx
    exact hne (by rw [hrest, List.takeWhile_cons_of_neg (by simpa using hx)])

/-- A name that is read where none goes on is a run. -/
theorem runs_name_le (word : List Char) (hc : c.Apart) {name : List Char}
    (h : name? c.rest = some name) :
    (if name = word then 1 else 0) + (c.advance name.length).runs word ≤ c.runs word := by
  have hbefore := hc.before_of_name h
  obtain ⟨rfl, hne⟩ := eq_takeWhile_of_name? h
  exact runs_read_le hbefore hne (by simpa using hne)

/-- The rest of a line ends before a line feed. -/
theorem apart_line (c : Cursor) : (c.advance (lineLength c.rest)).Apart := by
  right
  have hstop := head?_drop_takeWhile (· != '\n') c.rest
  rw [rest_advance, lineLength]
  cases hhead : (c.rest.drop (c.rest.takeWhile (· != '\n')).length).head? with
  | none => rfl
  | some x =>
    rw [hhead] at hstop
    obtain rfl : x = '\n' := by simpa using hstop
    rfl

theorem apart_hiddenComment {n : Nat} (h : hiddenCommentLength? c.rest = some n) :
    (c.advance n).Apart := by
  unfold hiddenCommentLength? at h
  split at h
  · rename_i cs hrest
    cases h
    have hlast := apart_line (c.advance 2)
    rwa [rest_advance, hrest, ← advance_add] at hlast
  · rename_i cs hrest
    rw [← hrest] at h
    cases hfind : find? ['*', '/'] c.rest with
    | none =>
      obtain rfl : c.rest.length = n := by simpa [lengthThrough, hfind] using h
      right
      simp [rest_advance]
    | some k =>
      obtain rfl : k + 2 = n := by simpa [lengthThrough, hfind] using h
      obtain ⟨more, hmore⟩ := drop_of_find? hfind
      rw [show k + 2 = k + 1 + 1 from rfl, advance_add]
      refine apart_advance_one (x := '/') ?_ rfl
      rw [rest_advance, ← List.drop_drop, ← hmore]
      rfl
  · cases h

theorem Apart.trivia (hc : c.Apart) : (c.advance (triviaLength c.rest)).Apart := by
  generalize hrest : c.rest = cs
  fun_induction triviaLength cs generalizing c with
  | case1 => rwa [advance_zero]
  | case2 x rest hblank ih =>
    rw [advance_add]
    refine ih (apart_advance_one (by rw [hrest]; rfl) (not_isNameChar_of_isBlank hblank)) ?_
    rw [rest_advance, hrest]
    rfl
  | case3 x rest hblank n hcomment ih =>
    have hpos := hiddenCommentLength?_pos hcomment
    rw [advance_add, show 1 + (n - 1) = n by omega]
    refine ih (apart_hiddenComment (by rw [hrest, hcomment])) ?_
    obtain ⟨n, rfl⟩ := Nat.exists_eq_succ_of_ne_zero hpos.ne'
    rw [rest_advance, hrest]
    rfl
  | case4 x rest hblank hnone => rwa [advance_zero]

theorem apart_raw {stops : List Char} (hstops : stops.any isNameChar = false)
    (c : Cursor) : (c.advance (rawLength stops c.before 0 c.rest)).Apart := by
  right
  rw [rest_advance]
  have hstop := head?_drop_rawLength stops c.before 0 c.rest
  cases hhead : (c.rest.drop (rawLength stops c.before 0 c.rest)).head? with
  | none => rfl
  | some x => simpa using List.any_eq_false.mp hstops x (hstop x hhead)

theorem apart_balanced {n : Nat} (h : balancedLength? 0 c.rest = some n) :
    (c.advance (n + 1)).Apart := by
  rw [advance_add]
  refine apart_advance_one (x := '}') ?_ rfl
  rw [rest_advance, drop_balancedLength? h]
  rfl

end Cursor

end Chtl.Markup
