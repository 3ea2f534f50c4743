import Chtl.Source.Location
import Chtl.Proofs.Text.Bytes

/-!
# Indices of lines

Where the lines of a text start is written down once, and the line of an offset is then found by a
binary search. The numbers of lines and columns have 32 bits. Between a start and the next one the
search comes to the line that starts there, on the start itself and behind it alike.
-/

set_option autoImplicit false
set_option linter.all false

namespace Chtl

open Text

/-- The byte that ends a line. -/
def lineFeed : UInt8 := UInt8.ofNat '\n'.toNat

/-- The offsets behind the line feeds among bytes that stand from `i` on. -/
def feedEnds (i : Nat) (bs : List UInt8) : List Nat :=
  ((bs.zipIdx i).filter fun b => b.1 == lineFeed).map fun b => b.2 + 1

/-- The offsets where the lines of a text start, and its size. -/
structure LineIndex where
  starts : List Nat
  size : Nat
  deriving DecidableEq, Repr

/-- The place of a number between two places of an ascending row, or the place where it would have
to be put in. -/
def search (xs : List Nat) (x lo hi : Nat) (h : hi ≤ xs.length) : Except Nat Nat :=
  if hlt : lo < hi then
    let mid := lo + (hi - lo) / 2
    have : mid < xs.length := by omega
    if xs[mid] = x then .ok mid
    else if xs[mid] < x then search xs x (mid + 1) hi h
    else search xs x lo mid (by omega)
  else .error lo
termination_by hi - lo

namespace LineIndex

def ofBytes (bs : List UInt8) : LineIndex := ⟨0 :: feedEnds 0 bs, bs.length⟩

/-- The line that an offset is in, counted from 0. -/
def line? (index : LineIndex) (offset : Nat) : Option Nat :=
  match search index.starts offset 0 index.starts.length (Nat.le_refl _) with
  | .ok i => some i
  | .error 0 => none
  | .error (i + 1) => some i

/-- The line and column of an offset, which stands for the end if it is past it. -/
def location? (index : LineIndex) (offset : Nat) : Option Location :=
  let p := min offset index.size
  (index.line? p).bind fun line =>
    index.starts[line]?.bind fun start =>
      if start ≤ p then
        some ⟨(UInt32.ofNat (line + 1)).toNat, (UInt32.ofNat (p - start + 1)).toNat⟩
      else none

end LineIndex

/-! ## Where lines start -/

theorem feedEnds_append (i : Nat) (as bs : List UInt8) :
    feedEnds i (as ++ bs) = feedEnds i as ++ feedEnds (i + as.length) bs := by
  rw [feedEnds, List.zipIdx_append, List.filter_append, List.map_append, feedEnds, feedEnds]

theorem feedEnds_cons (i : Nat) (b : UInt8) (bs : List UInt8) :
    feedEnds i (b :: bs) = (if b = lineFeed then [i + 1] else []) ++ feedEnds (i + 1) bs := by
  rw [← List.singleton_append, feedEnds_append]
  by_cases hb : b = lineFeed <;> simp [feedEnds, hb]

theorem feedEnds_of_not_mem {bs : List UInt8} (h : lineFeed ∉ bs) (i : Nat) :
    feedEnds i bs = [] := by
  induction bs generalizing i with
  | nil => rfl
  | cons b bs ih =>
    obtain ⟨hb, hbs⟩ := not_or.mp (List.mem_cons.not.mp h)
    rw [feedEnds_cons, if_neg (Ne.symm hb), ih hbs, List.nil_append]

theorem length_feedEnds (i : Nat) (bs : List UInt8) :
    (feedEnds i bs).length = bs.count lineFeed := by
  induction bs generalizing i with
  | nil => rfl
  | cons b bs ih =>
    rw [feedEnds_cons, List.length_append, ih, List.count_cons]
    by_cases hb : b = lineFeed <;> simp [hb, Nat.add_comm]

theorem bounds_of_mem_feedEnds {i x : Nat} {bs : List UInt8} (h : x ∈ feedEnds i bs) :
    i < x ∧ x ≤ i + bs.length := by
  induction bs generalizing i with
  | nil => cases h
  | cons b bs ih =>
    rw [feedEnds_cons, List.mem_append] at h
    rw [List.length_cons]
    rcases h with hfirst | hlater
    · have hx : x = i + 1 := by
        split_ifs at hfirst
        · exact List.mem_singleton.mp hfirst
        · cases hfirst
      omega
    · have := ih hlater
      omega

/-- The last line start up to the end of a line feed is that end. -/
theorem starts_eq {before : List UInt8} (h : before = [] ∨ before.getLast? = some lineFeed) :
    ∃ earlier, 0 :: feedEnds 0 before = earlier ++ [before.length] ∧
      earlier.length = before.count lineFeed ∧ ∀ start ∈ earlier, start < before.length := by
  rcases h with rfl | hlast
  · exact ⟨[], rfl, rfl, by simp⟩
  · obtain ⟨front, rfl⟩ := List.getLast?_eq_some_iff.mp hlast
    have hends : feedEnds 0 (front ++ [lineFeed]) = feedEnds 0 front ++ [front.length + 1] := by
      rw [feedEnds_append, Nat.zero_add]
      rfl
    refine ⟨0 :: feedEnds 0 front, ?_, ?_, ?_⟩
    · rw [hends, List.length_append, List.length_singleton, List.cons_append]
    · rw [List.length_cons, length_feedEnds, List.count_append, List.count_singleton_self]
    · intro start hstart
      rw [List.length_append, List.length_singleton]
      rcases List.mem_cons.mp hstart with rfl | hstart
      · omega
      · have := bounds_of_mem_feedEnds hstart
        omega

/-! ## The search -/

/-- The search comes to the last number that is not above the one looked for. -/
theorem search_eq {earlier behind : List Nat} {last x : Nat} (hearlier : ∀ a ∈ earlier, a < last)
    (hlast : last ≤ x) (hbehind : ∀ b ∈ behind, x < b) (lo hi : Nat)
    (h : hi ≤ (earlier ++ last :: behind).length) (hlo : lo ≤ earlier.length + 1)
    (hhi : earlier.length < hi) :
    search (earlier ++ last :: behind) x lo hi h = .ok earlier.length ∨
      search (earlier ++ last :: behind) x lo hi h = .error (earlier.length + 1) := by
  have hfront {i : Nat} (hi : i < earlier.length) (hin : i < (earlier ++ last :: behind).length) :
      (earlier ++ last :: behind)[i] < x := by
    rw [List.getElem_append_left hi]
    exact Nat.lt_of_lt_of_le (hearlier _ (List.getElem_mem hi)) hlast
  have hback {i : Nat} (hi : earlier.length < i) (hin : i < (earlier ++ last :: behind).length) :
      x < (earlier ++ last :: behind)[i] := by
    obtain ⟨j, rfl⟩ := Nat.exists_eq_add_of_lt hi
    rw [List.getElem_append_right (by omega)]
    have hj : earlier.length + j + 1 - earlier.length = j + 1 := by omega
    simp only [hj, List.getElem_cons_succ]
    exact hbehind _ (List.getElem_mem _)
  fun_induction search (earlier ++ last :: behind) x lo hi h with
  | case1 lo hi h hlt mid hmid heq =>
    left
    rcases Nat.lt_trichotomy mid earlier.length with hm | hm | hm
    · exact absurd heq (Nat.ne_of_lt (hfront hm hmid))
    · rw [hm]
    · exact absurd heq (Nat.ne_of_gt (hback hm hmid))
  | case2 lo hi h hlt mid hmid hne hless ih =>
    have hm : mid ≤ earlier.length := by
      by_contra hm
      exact Nat.lt_asymm hless (hback (Nat.lt_of_not_le hm) hmid)
    exact ih (Nat.succ_le_succ hm) hhi
  | case3 lo hi h hlt mid hmid hne hless ih =>
    have hm : earlier.length < mid := by
      rcases Nat.lt_trichotomy mid earlier.length with hm | hm | hm
      · exact absurd (hfront hm hmid) hless
      · -- at the start of the line nothing is above the number
        have hat : (earlier ++ last :: behind)[mid] = last := by
          simp [hm]
        omega
      · exact hm
    exact ih hlo hm
  | case4 lo hi h hlt =>
    right
    rw [show lo = earlier.length + 1 by omega]

namespace LineIndex

/-- In a text of lines the index finds the line of an offset, with numbers of 32 bits. -/
theorem location?_ofBytes {before line after : List UInt8}
    (hstart : before = [] ∨ before.getLast? = some lineFeed) (hline : lineFeed ∉ line)
    {offset p : Nat} (hp : p = min offset (before ++ (line ++ after)).length)
    (hle : before.length ≤ p) (hge : p ≤ before.length + line.length) :
    (ofBytes (before ++ (line ++ after))).location? offset =
      some ⟨(UInt32.ofNat (before.count lineFeed + 1)).toNat,
        (UInt32.ofNat (p - before.length + 1)).toNat⟩ := by
  obtain ⟨earlier, hstarts, hcount, hearlier⟩ := starts_eq hstart
  obtain ⟨behind, hindex, hbehind⟩ : ∃ behind,
      (ofBytes (before ++ (line ++ after))).starts = earlier ++ before.length :: behind ∧
        ∀ b ∈ behind, p < b := by
    refine ⟨feedEnds (before.length + line.length) after, ?_, fun b hb => ?_⟩
    · rw [ofBytes, feedEnds_append, feedEnds_append, feedEnds_of_not_mem hline, List.nil_append,
        Nat.zero_add, ← List.cons_append, hstarts, List.append_assoc, List.singleton_append]
    · exact Nat.lt_of_le_of_lt hge (bounds_of_mem_feedEnds hb).1
  have hfound : (ofBytes (before ++ (line ++ after))).line? p = some earlier.length := by
    have hsearch := search_eq hearlier hle hbehind 0 (earlier ++ before.length :: behind).length
      (Nat.le_refl _) (Nat.zero_le _) (by simp)
    unfold line?
    simp only [hindex]
    rcases hsearch with hok | herror
    · rw [hok]
    · rw [herror]
  unfold location?
  simp only [show min offset (ofBytes (before ++ (line ++ after))).size = p from hp.symm, hfound,
    Option.bind_some, hindex]
  rw [List.getElem?_append_right (Nat.le_refl _), Nat.sub_self, List.getElem?_cons_zero,
    Option.bind_some, if_pos hle, hcount]

end LineIndex

end Chtl
