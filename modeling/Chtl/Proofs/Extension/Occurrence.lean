import Chtl.Extension.Occurrence
import Chtl.Proofs.Text.Basic

/-!
# How occurrences stand in a script

An occurrence is a stretch of its script: the keyword, blanks, and the body between brackets of one
kind. It is never empty, so a script has been used up by as many occurrences as it has characters.
-/

set_option autoImplicit false
set_option linter.all false

namespace Chtl.Extension

open Text

/-- What is left behind two texts that begin with one character. -/
theorem drop_of_append_eq_cons {α : Type} {as bs rest more : List α} {a : α} (hne : bs ≠ [])
    (h : as ++ (bs ++ rest) = a :: more) : more.drop (as.length + bs.length - 1) = rest := by
  have hpos := List.length_pos_iff.mpr hne
  obtain ⟨n, hn⟩ : ∃ n, as.length + bs.length = n + 1 := ⟨as.length + bs.length - 1, by omega⟩
  rw [hn, Nat.add_sub_cancel, ← List.drop_succ_cons (a := a), ← h, ← hn, ← List.append_assoc,
    ← List.length_append, List.drop_left]

/-- The text of an occurrence is written with its keyword and its body. -/
def Occurrence.Written (keyword : List Char) (o : Occurrence) : Prop :=
  keyword ≠ [] ∧ ∃ blanks left right, (left, right) ∈ [('(', ')'), ('{', '}')] ∧
    o.text = keyword ++ (blanks ++ left :: (o.body ++ [right]))

theorem Occurrence.Written.ne_nil {keyword : List Char} {o : Occurrence} (h : o.Written keyword) :
    o.text ≠ [] := by
  obtain ⟨hne, blanks, left, right, -, htext⟩ := h
  rw [htext]
  simp [hne]

/-- A group of brackets ends with the bracket that closes it. -/
theorem closing_of_closingLength? {left right : Char} {depth n : Nat} {cs : List Char}
    (h : closingLength? left right depth cs = some n) :
    ∃ inner rest, cs = inner ++ right :: rest ∧ n = inner.length + 1 := by
  fun_induction closingLength? left right depth cs generalizing n with
  | case1 => cases h
  | case2 depth c tail k hliteral ih =>
    obtain ⟨m, hm, rfl⟩ := Option.map_eq_some_iff.mp h
    obtain ⟨inner, rest, htail, rfl⟩ := ih hm
    have hlt : k - 1 < tail.length := by
      have hlength := congrArg List.length htail
      simp only [List.length_drop, List.length_append, List.length_cons] at hlength
      omega
    refine ⟨c :: (tail.take (k - 1) ++ inner), rest, ?_, ?_⟩
    · rw [List.cons_append, List.append_assoc, ← htail, List.take_append_drop]
    · simp only [List.length_cons, List.length_append, List.length_take]
      omega
  | case3 depth tail hliteral ih =>
    obtain ⟨m, hm, rfl⟩ := Option.map_eq_some_iff.mp h
    obtain ⟨inner, rest, rfl, rfl⟩ := ih hm
    exact ⟨left :: inner, rest, rfl, rfl⟩
  | case4 depth tail hdepth hliteral hopen =>
    cases h
    exact ⟨[], tail, rfl, rfl⟩
  | case5 depth tail hdepth hliteral hopen ih =>
    obtain ⟨m, hm, rfl⟩ := Option.map_eq_some_iff.mp h
    obtain ⟨inner, rest, rfl, rfl⟩ := ih hm
    exact ⟨right :: inner, rest, rfl, rfl⟩
  | case6 depth c tail hliteral hopen hclose ih =>
    obtain ⟨m, hm, rfl⟩ := Option.map_eq_some_iff.mp h
    obtain ⟨inner, rest, rfl, rfl⟩ := ih hm
    exact ⟨c :: inner, rest, rfl, rfl⟩

theorem group_of_closingLength? {left right : Char} {n : Nat} {tail : List Char}
    (hliteral : Script.literalLength? (left :: tail) = none)
    (h : closingLength? left right 0 (left :: tail) = some n) :
    ∃ body rest, left :: tail = left :: (body ++ right :: rest) ∧ n = body.length + 2 := by
  rw [closingLength?, hliteral, if_pos rfl] at h
  obtain ⟨m, hm, rfl⟩ := Option.map_eq_some_iff.mp h
  obtain ⟨body, rest, rfl, rfl⟩ := closing_of_closingLength? hm
  exact ⟨body, rest, rfl, rfl⟩

/-- Arguments are a body between brackets of one kind. -/
theorem group_of_argumentsLength? {cs : List Char} {n : Nat} (h : argumentsLength? cs = some n) :
    ∃ left right body rest, (left, right) ∈ [('(', ')'), ('{', '}')] ∧
      cs = left :: (body ++ right :: rest) ∧ n = body.length + 2 := by
  unfold argumentsLength? at h
  split at h
  · rename_i hhead
    obtain ⟨tail, rfl⟩ := List.head?_eq_some_iff.mp hhead
    obtain ⟨body, rest, htail, hn⟩ := group_of_closingLength? rfl h
    exact ⟨'(', ')', body, rest, by simp, htail, hn⟩
  · rename_i hhead
    obtain ⟨tail, rfl⟩ := List.head?_eq_some_iff.mp hhead
    obtain ⟨body, rest, htail, hn⟩ := group_of_closingLength? rfl h
    exact ⟨'{', '}', body, rest, by simp, htail, hn⟩
  · cases h

variable {keyword cs : List Char} {o : Occurrence}

theorem written_of_occurrenceHere? (hne : keyword ≠ [])
    (h : occurrenceHere? keyword cs = some o) :
    o.Written keyword ∧ ∃ rest, cs = o.before ++ (o.text ++ rest) := by
  unfold occurrenceHere? at h
  split at h
  · cases h
  · rename_i behind hbehind
    split_ifs at h
    obtain ⟨n, hn, rfl⟩ := Option.map_eq_some_iff.mp h
    obtain ⟨left, right, body, rest, hkind, hgroup, rfl⟩ := group_of_argumentsLength? hn
    have htake : (left :: (body ++ right :: rest)).take (body.length + 2) =
        left :: (body ++ [right]) := by
      rw [← List.singleton_append (l := rest), ← List.append_assoc, List.take_succ_cons,
        List.take_left' (by simp)]
    have hbody : ((left :: (body ++ right :: rest)).take (body.length + 2 - 1)).drop 1 = body := by
      rw [show body.length + 2 - 1 = body.length + 1 by omega, List.take_succ_cons, List.take_left]
      rfl
    rw [after?_eq_some_iff] at hbehind
    have hblanks : behind = behind.takeWhile isAsciiBlank ++
        left :: (body ++ right :: rest) := by
      conv_lhs => rw [← List.take_append_drop (behind.takeWhile isAsciiBlank).length behind, hgroup]
      rw [← List.prefix_iff_eq_take.mp (List.takeWhile_prefix _)]
    refine ⟨⟨hne, behind.takeWhile isAsciiBlank, left, right, hkind, ?_⟩, rest, ?_⟩
    · dsimp only
      rw [hgroup, htake, hbody, List.append_assoc]
    · dsimp only
      rw [hgroup, htake, hbehind]
      conv_lhs => rw [hblanks]
      simp

theorem written_of_occurrenceAfter? {previous : Option Char} (hne : keyword ≠ [])
    (h : occurrenceAfter? keyword previous cs = some o) :
    o.Written keyword ∧ ∃ rest, cs = o.before ++ (o.text ++ rest) := by
  induction previous, cs using occurrenceAfter?.induct keyword generalizing o with
  | case1 => simp [occurrenceAfter?] at h
  | case2 previous c tail k hliteral passed =>
    rename_i ih
    rw [occurrenceAfter?, hliteral] at h
    obtain ⟨later, hlater, rfl⟩ := Option.map_eq_some_iff.mp h
    obtain ⟨hwritten, rest, htail⟩ := ih hlater
    refine ⟨hwritten, rest, ?_⟩
    rw [Occurrence.behind, List.append_assoc, ← htail, List.cons_append, List.take_append_drop]
  | case3 previous c tail hliteral ih =>
    rw [occurrenceAfter?, hliteral] at h
    rcases Option.or_eq_some_iff.mp h with hhere | ⟨-, hafter⟩
    · split_ifs at hhere
      exact written_of_occurrenceHere? hne hhere
    · obtain ⟨later, hlater, rfl⟩ := Option.map_eq_some_iff.mp hafter
      obtain ⟨hwritten, rest, rfl⟩ := ih hlater
      exact ⟨hwritten, rest, rfl⟩

/-- What is found in a script stands in it as it was written. -/
theorem written_of_occurrence? (h : occurrence? keyword cs = some o) :
    o.Written keyword ∧ ∃ rest, cs = o.before ++ (o.text ++ rest) := by
  unfold occurrence? at h
  split_ifs at h with hempty
  exact written_of_occurrenceAfter? (by simpa using hempty) h

/-- What holds of a script without occurrences, and of a script if it holds of what stands behind its
first occurrence, holds of every script. -/
theorem occurrence_induction {motive : List Char → Prop} (keyword : List Char)
    (clear : ∀ cs, occurrence? keyword cs = none → motive cs)
    (found : ∀ o rest, o.Written keyword →
      occurrence? keyword (o.before ++ (o.text ++ rest)) = some o → motive rest →
      motive (o.before ++ (o.text ++ rest)))
    (cs : List Char) : motive cs := by
  induction hlength : cs.length using Nat.strong_induction_on generalizing cs with
  | _ length ih =>
    cases hfirst : occurrence? keyword cs with
    | none => exact clear cs hfirst
    | some o =>
      obtain ⟨hwritten, rest, rfl⟩ := written_of_occurrence? hfirst
      have hpos := List.length_pos_iff.mpr hwritten.ne_nil
      simp only [List.length_append] at hlength
      exact found o rest hwritten hfirst (ih rest.length (by omega) rest rfl)

end Chtl.Extension
