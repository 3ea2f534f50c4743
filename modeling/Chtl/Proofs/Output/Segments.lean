import Chtl.Output.Token
import Chtl.Proofs.Fragment.Token
import Mathlib.Data.List.TakeWhile

/-!
# Where a text is cut

What counts as a placeholder is a shape: an opening for the kind of block, two numbers and a closing
mark. A text that begins with such a shape is cut behind it, and a text in which none begins falls
into its characters. Every text that is cut off as a placeholder has the shape.
-/

set_option autoImplicit false
set_option linter.all false

namespace Chtl.Output

open Text

/-- What a placeholder of a kind begins with. -/
def opening (kind : FragmentKind) : List Char := ("__CHTL_" ++ kind.tokenTag ++ "_").toList

/-- The two numbers of a placeholder and the mark that closes it. -/
def closing (nonce ordinal : List Char) : List Char := nonce ++ '_' :: (ordinal ++ ['_', '_'])

/-- Eight hexadecimal digits, and an ordinal of at least one digit. -/
structure Numbered (nonce ordinal : List Char) : Prop where
  length : nonce.length = 8
  hex : nonce.all isHexDigit = true
  some : ordinal ≠ []
  digits : ∀ c ∈ ordinal, isDecimalDigit c = true

/-- A text with the shape of a placeholder. -/
def IsToken (t : List Char) : Prop :=
  ∃ kind nonce ordinal, kind ≠ .markup ∧ Numbered nonce ordinal ∧
    t = opening kind ++ closing nonce ordinal

theorem begins_opening {kind : FragmentKind} (h : kind ≠ .markup) :
    ∃ more, opening kind = Placeholder.mark ++ ['S'] ++ more := by
  cases kind with
  | markup => exact absurd rfl h
  | style => exact ⟨"TYLE_".toList, by decide⟩
  | script => exact ⟨"CRIPT_".toList, by decide⟩

theorem length_closing (nonce ordinal : List Char) :
    (closing nonce ordinal).length = nonce.length + 1 + ordinal.length + 2 := by
  simp only [closing, List.length_append, List.length_cons, List.length_nil]
  omega

theorem numberLength?_closing {nonce ordinal : List Char} (h : Numbered nonce ordinal)
    (rest : List Char) :
    numberLength? (closing nonce ordinal ++ rest) = some (closing nonce ordinal).length := by
  have htake : (closing nonce ordinal ++ rest).take 8 = nonce := by
    rw [closing, List.append_assoc, ← h.length, List.take_left]
  have hdrop : (closing nonce ordinal ++ rest).drop 8 = '_' :: (ordinal ++ '_' :: '_' :: rest) := by
    rw [closing, List.append_assoc, ← h.length, List.drop_left]
    simp
  have hbehind : (closing nonce ordinal ++ rest).drop 9 = ordinal ++ '_' :: '_' :: rest := by
    rw [← List.drop_drop (i := 1) (j := 8), hdrop, List.drop_one, List.tail_cons]
  have hordinal : ((closing nonce ordinal ++ rest).drop 9).takeWhile isDecimalDigit = ordinal := by
    rw [hbehind, List.takeWhile_append_of_pos h.digits, List.takeWhile_cons_of_neg (by decide),
      List.append_nil]
  have hlast : startsWith ((closing nonce ordinal ++ rest).drop (9 + ordinal.length)) ['_', '_'] =
      true := by
    rw [← List.drop_drop, hbehind, List.drop_left]
    exact startsWith_iff.mpr ⟨rest, rfl⟩
  rw [numberLength?, htake, hordinal, hdrop, hlast, length_closing, h.length]
  simp [h.hex, h.some]

theorem closing_of_numberLength? {cs : List Char} {n : Nat} (h : numberLength? cs = some n) :
    ∃ nonce ordinal rest, Numbered nonce ordinal ∧ cs = closing nonce ordinal ++ rest := by
  simp only [numberLength?] at h
  split_ifs at h with hshape
  simp only [Bool.and_eq_true, decide_eq_true_eq, beq_iff_eq, Bool.not_eq_true',
    List.isEmpty_eq_false_iff] at hshape
  obtain ⟨⟨⟨⟨hlength, hhex⟩, hunder⟩, hsome⟩, hlast⟩ := hshape
  obtain ⟨rest, hrest⟩ := startsWith_iff.mp hlast
  refine ⟨cs.take 8, (cs.drop 9).takeWhile isDecimalDigit, rest,
    ⟨hlength, hhex, hsome, fun c hc => List.mem_takeWhile_imp hc⟩, ?_⟩
  have hbehind : cs.drop 8 = '_' :: cs.drop 9 := by
    rw [List.eq_cons_of_mem_head? hunder, List.tail_drop]
  have hordinal : (cs.drop 9).takeWhile isDecimalDigit ++ _ = cs.drop 9 :=
    List.prefix_iff_eq_append.mp (List.takeWhile_prefix isDecimalDigit)
  rw [List.drop_drop, ← hrest] at hordinal
  rw [closing, List.append_assoc, List.cons_append, List.append_assoc, hordinal, ← hbehind,
    List.take_append_drop]

theorem tokenOfKindLength?_eq_some_iff {kind : FragmentKind} {cs : List Char} {n : Nat} :
    tokenOfKindLength? kind cs = some n ↔
      ∃ nonce ordinal rest, Numbered nonce ordinal ∧
        cs = opening kind ++ closing nonce ordinal ++ rest ∧
        (opening kind ++ closing nonce ordinal).length = n := by
  rw [tokenOfKindLength?, Option.bind_eq_some_iff]
  constructor
  · rintro ⟨behind, hbehind, hn⟩
    obtain ⟨m, hm, rfl⟩ := Option.map_eq_some_iff.mp hn
    obtain ⟨nonce, ordinal, rest, hnumbered, rfl⟩ := closing_of_numberLength? hm
    obtain rfl : _ = m := Option.some.inj ((numberLength?_closing hnumbered rest).symm.trans hm)
    refine ⟨nonce, ordinal, rest, hnumbered, ?_, ?_⟩
    · rw [after?_eq_some_iff.mp hbehind, List.append_assoc]
      rfl
    · rw [List.length_append, Nat.add_comm]
      rfl
  · rintro ⟨nonce, ordinal, rest, hnumbered, rfl, rfl⟩
    refine ⟨closing nonce ordinal ++ rest, after?_eq_some_iff.mpr ?_, ?_⟩
    · rw [List.append_assoc]
      rfl
    · rw [numberLength?_closing hnumbered, Option.map_some, List.length_append, Nat.add_comm]
      rfl

/-- The two kinds of block open differently, so at most one of them is found. -/
theorem not_opening_both {a b : List Char} : opening .style ++ a ≠ opening .script ++ b := by
  intro h
  have hprefix : opening .style <+: opening .script :=
    List.prefix_of_prefix_length_le ⟨a, h⟩ (List.prefix_append _ _) (by decide)
  exact absurd hprefix (by decide)

theorem tokenLength?_eq_some_iff {cs : List Char} {n : Nat} :
    tokenLength? cs = some n ↔ ∃ t rest, IsToken t ∧ cs = t ++ rest ∧ t.length = n := by
  rw [tokenLength?, Option.or_eq_some_iff]
  constructor
  · rintro (h | ⟨-, h⟩)
    all_goals
      obtain ⟨nonce, ordinal, rest, hnumbered, hcs, hn⟩ := tokenOfKindLength?_eq_some_iff.mp h
      exact ⟨_, rest, ⟨_, nonce, ordinal, by decide, hnumbered, rfl⟩, hcs, hn⟩
  · rintro ⟨t, rest, ⟨kind, nonce, ordinal, hkind, hnumbered, rfl⟩, rfl, rfl⟩
    have hfound : tokenOfKindLength? kind (opening kind ++ closing nonce ordinal ++ rest) =
        some (opening kind ++ closing nonce ordinal).length :=
      tokenOfKindLength?_eq_some_iff.mpr ⟨nonce, ordinal, rest, hnumbered, rfl, rfl⟩
    cases kind with
    | markup => exact absurd rfl hkind
    | style => exact .inl hfound
    | script =>
      refine .inr ⟨?_, hfound⟩
      rw [Option.eq_none_iff_forall_ne_some]
      intro n hn
      obtain ⟨nonce', ordinal', rest', -, hcs, -⟩ := tokenOfKindLength?_eq_some_iff.mp hn
      rw [List.append_assoc, List.append_assoc] at hcs
      exact not_opening_both hcs.symm

theorem isToken_iff {t : List Char} : IsToken t ↔ tokenLength? t = some t.length := by
  rw [tokenLength?_eq_some_iff]
  constructor
  · intro h
    exact ⟨t, [], h, by simp, rfl⟩
  · rintro ⟨u, rest, hu, ht, hlength⟩
    obtain rfl : rest = [] := by simpa [hlength] using congrArg List.length ht
    rwa [ht, List.append_nil]

instance : DecidablePred IsToken := fun _ => decidable_of_iff _ isToken_iff.symm

namespace IsToken

variable {t : List Char}

theorem begins (h : IsToken t) : ∃ more, t = Placeholder.mark ++ ['S'] ++ more := by
  obtain ⟨kind, nonce, ordinal, hkind, -, rfl⟩ := h
  obtain ⟨more, hmore⟩ := begins_opening hkind
  exact ⟨more ++ closing nonce ordinal, by rw [hmore, List.append_assoc]⟩

theorem ne_nil (h : IsToken t) : t ≠ [] := by
  obtain ⟨more, rfl⟩ := h.begins
  simp

theorem mark_part (h : IsToken t) : Placeholder.mark <:+: t := by
  obtain ⟨more, rfl⟩ := h.begins
  rw [List.append_assoc]
  exact (List.prefix_append _ _).isInfix

end IsToken

/-! ## Cutting -/

/-- A placeholder at the front is cut off. -/
theorem segments_token {t : List Char} (h : IsToken t) (rest : List Char) :
    segments (t ++ rest) = .token t :: segments rest := by
  have hlength : tokenLength? (t ++ rest) = some t.length :=
    tokenLength?_eq_some_iff.mpr ⟨t, rest, h, rfl, rfl⟩
  obtain ⟨c, cs, rfl⟩ := List.exists_cons_of_ne_nil h.ne_nil
  rw [List.cons_append] at hlength ⊢
  rw [segments, hlength]
  simp

/-- Where no placeholder begins, characters are cut off. -/
theorem segments_plain {a b : List Char}
    (h : ∀ u, u ≠ [] → u <:+ a → ∀ t, IsToken t → ¬ t <+: u ++ b) :
    segments (a ++ b) = a.map .plain ++ segments b := by
  induction a with
  | nil => rfl
  | cons c a ih =>
    have hnone : tokenLength? (c :: (a ++ b)) = none := by
      rw [Option.eq_none_iff_forall_ne_some]
      intro n hn
      obtain ⟨t, rest, ht, hcs, -⟩ := tokenLength?_eq_some_iff.mp hn
      exact h (c :: a) (by simp) (List.suffix_refl _) t ht ⟨rest, hcs.symm⟩
    have hrest := ih fun u hu hsuffix => h u hu (hsuffix.trans (List.suffix_cons c a))
    rw [List.cons_append, segments, hnone, hrest]
    rfl

theorem isToken_of_mem_segments {cs t : List Char} (h : .token t ∈ segments cs) : IsToken t := by
  fun_induction segments cs with
  | case1 => cases h
  | case2 c rest n hn ih =>
    rcases List.mem_cons.mp h with heq | h
    · cases heq
      obtain ⟨t, more, ht, hcs, rfl⟩ := tokenLength?_eq_some_iff.mp hn
      obtain ⟨d, ds, rfl⟩ := List.exists_cons_of_ne_nil ht.ne_nil
      obtain ⟨rfl, rfl⟩ := List.cons.inj hcs
      simpa using ht
    · exact ih h
  | case3 c rest _ ih =>
    rcases List.mem_cons.mp h with heq | h
    · cases heq
    · exact ih h

theorem mem_tokens_iff {cs t : List Char} : t ∈ tokens cs ↔ .token t ∈ segments cs := by
  rw [tokens, List.mem_filterMap]
  constructor
  · rintro ⟨s, hs, ht⟩
    cases s with
    | plain c => cases ht
    | token u =>
      cases ht
      exact hs
  · intro h
    exact ⟨_, h, rfl⟩

theorem isToken_of_mem_tokens {cs t : List Char} (h : t ∈ tokens cs) : IsToken t :=
  isToken_of_mem_segments (mem_tokens_iff.mp h)

/-- A text without the mark holds no placeholder. -/
theorem tokens_of_not_mark {cs : List Char} (h : ¬ Placeholder.mark <:+: cs) : tokens cs = [] := by
  rw [List.eq_nil_iff_forall_not_mem]
  intro t ht
  exact h ((isToken_of_mem_tokens ht).mark_part.trans (part_of_mem_tokens ht))

end Chtl.Output
