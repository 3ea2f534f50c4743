import Chtl.Proofs.Output.Restore
import Mathlib.Logic.Relation

/-!
# Passes of a substitution

A pass replaces the keys that no text of a pass before it held. So a key that stays in the result
has come back: it stood in the text of an earlier pass, and a later text brought it again. If no key
comes back, the passes are those of plain replacement, and the result holds no key. References
without a cycle do not keep a key from coming back, since it may be reached in more than one number
of steps.
-/

set_option autoImplicit false
set_option linter.all false

namespace Chtl.Output

open Text

theorem contains_iff {cs t : List Char} : contains cs t = true ↔ t <:+: cs := by
  constructor
  · intro h
    obtain ⟨n, hn⟩ := Option.isSome_iff_exists.mp h
    exact (drop_of_find? hn).isInfix.trans (List.drop_suffix n cs).isInfix
  · exact contains_of_part

/-- The placeholders that have a text. -/
def keys (m : Replacements) : List (List Char) := m.map (·.1)

/-- The keys that none of the texts holds, with their own texts. -/
def fresh (seen : List (List Char)) (m : Replacements) : Replacements :=
  m.filter fun entry => !seen.any fun cs => contains cs entry.1

/-- The texts that passes over a text have gone through, the last one first, and what has come of
it. Each pass replaces the keys that no text before its own held, one at least. -/
inductive Passed (m : Replacements) (cs : List Char) : List (List Char) → List Char → Prop
  | start : Passed m cs [] cs
  | pass {seen : List (List Char)} {now : List Char} (before : Passed m cs seen now)
      (more : isOpen (fresh seen m) now = true) :
      Passed m cs (now :: seen) (pass (fresh seen m) now)

/-- What `n` passes make of a text if each replaces all keys. -/
def expansion (m : Replacements) (cs : List Char) : Nat → List Char
  | 0 => cs
  | n + 1 => pass m (expansion m cs n)

section

variable {m : Replacements} {cs now : List Char} {seen : List (List Char)}

@[simp] theorem fresh_nil : fresh [] m = m := by
  simp [fresh]

theorem unresolved_fresh : unresolved (fresh seen m) now = fresh (now :: seen) m := by
  simp only [unresolved, fresh, List.filter_filter, List.any_cons, Bool.not_or]

theorem get?_fresh_of_not_held {t : List Char} (h : ∀ s ∈ seen, ¬ t <:+: s) :
    (fresh seen m).get? t = m.get? t := by
  have hnot : (seen.any fun s => contains s t) = false := by
    rw [List.any_eq_false]
    exact fun s hs hcontains => h s hs (contains_iff.mp hcontains)
  rw [Table.get?, fresh, List.find?_filter, Table.get?]
  congr 2
  funext entry
  by_cases hkey : entry.1 = t
  · simp [hkey, hnot]
  · simp [hkey]

/-- What a pass makes of a text depends on the placeholders of the text. -/
theorem pass_congr {m' : Replacements} (h : ∀ t ∈ tokens cs, m.get? t = m'.get? t) :
    pass m cs = pass m' cs := by
  refine List.flatMap_congr fun s hs => ?_
  cases s with
  | plain c => rfl
  | token t => simp [h t (mem_tokens_iff.mpr hs)]

theorem get?_eq_none_iff {t : List Char} : m.get? t = none ↔ t ∉ keys m := by
  rw [Table.get?, Option.map_eq_none_iff, List.find?_eq_none, keys, List.mem_map]
  simp only [decide_eq_true_eq, not_exists, not_and]

/-- The passes of a substitution end where no key is left that was not held before. -/
theorem passed_substitute {pending : Replacements} (hpending : pending = fresh seen m)
    (h : Passed m cs seen now) :
    ∃ seen', Passed m cs seen' (substitute pending now) ∧
      isOpen (fresh seen' m) (substitute pending now) = false := by
  fun_induction substitute pending now generalizing seen with
  | case1 pending now hopen ih =>
    subst hpending
    exact ih unresolved_fresh (h.pass hopen)
  | case2 pending now hclosed =>
    subst hpending
    exact ⟨seen, h, by simpa using hclosed⟩

theorem Passed.length_le (h : Passed m cs seen now) :
    seen.length + (fresh seen m).length ≤ m.length := by
  induction h with
  | start => simp
  | pass before more ih =>
    have hlt := length_unresolved_lt more
    rw [unresolved_fresh] at hlt
    rw [List.length_cons]
    omega

/-- A key that no pass may replace any more was held by an earlier text. -/
theorem held_of_closed (hclosed : isOpen (fresh seen m) now = false) {k : List Char}
    (hk : k ∈ keys m) (htoken : k ∈ tokens now) : ∃ earlier ∈ seen, k <:+: earlier := by
  by_contra hnot
  push Not at hnot
  have hnone : (fresh seen m).get? k = none := by
    simpa using List.any_eq_false.mp hclosed k htoken
  rw [get?_fresh_of_not_held hnot, get?_eq_none_iff] at hnone
  exact hnone hk

/-- No key comes back: none stands in what plain replacement makes of a text at a time, and is a
placeholder of what it makes of it later. -/
def NoReturn (m : Replacements) (cs : List Char) : Prop :=
  ∀ k ∈ keys m, ∀ i j, i < j → k <:+: expansion m cs i → k ∉ tokens (expansion m cs j)

/-- If no key comes back, each pass replaces all keys. -/
theorem Passed.expansion (h : Passed m cs seen now) (hreturn : NoReturn m cs) :
    now = expansion m cs seen.length ∧
      ∀ earlier ∈ seen, ∃ i < seen.length, earlier = Output.expansion m cs i := by
  induction h with
  | start => exact ⟨rfl, fun _ h => nomatch h⟩
  | @pass seen now before more ih =>
    obtain ⟨rfl, hseen⟩ := ih
    constructor
    · refine pass_congr fun t ht => ?_
      by_cases hkey : t ∈ keys m
      · refine get?_fresh_of_not_held fun earlier hearlier hheld => ?_
        obtain ⟨i, hi, rfl⟩ := hseen earlier hearlier
        exact hreturn t hkey i seen.length hi hheld ht
      · rw [get?_eq_none_iff.mpr hkey, get?_eq_none_iff.mpr fun hfresh => hkey ?_]
        exact (List.filter_sublist.map _).subset hfresh
    · intro earlier hearlier
      rcases List.mem_cons.mp hearlier with rfl | hearlier
      · exact ⟨seen.length, Nat.lt_succ_self _, rfl⟩
      · obtain ⟨i, hi, rfl⟩ := hseen earlier hearlier
        exact ⟨i, Nat.lt_succ_of_lt hi, rfl⟩

end

/-- A key that a substitution leaves stood in the text of an earlier pass. If no key comes back, the
result is that of plain replacement and holds none. -/
theorem substitute_leaves (m : Replacements) (cs : List Char) :
    ∃ seen, Passed m cs seen (substitute m cs) ∧ seen.length ≤ m.length ∧
      (∀ k ∈ keys m, k ∈ tokens (substitute m cs) → ∃ earlier ∈ seen, k <:+: earlier) ∧
      (NoReturn m cs → substitute m cs = expansion m cs seen.length ∧
        ∀ k ∈ keys m, k ∉ tokens (substitute m cs)) := by
  have hstart : Passed m cs [] cs := .start
  obtain ⟨seen, hpassed, hclosed⟩ := passed_substitute fresh_nil.symm hstart
  have hlength := hpassed.length_le
  refine ⟨seen, hpassed, by omega, fun k hk htoken => held_of_closed hclosed hk htoken, ?_⟩
  intro hreturn
  obtain ⟨hnow, hseen⟩ := hpassed.expansion hreturn
  refine ⟨hnow, fun k hk htoken => ?_⟩
  obtain ⟨earlier, hearlier, hheld⟩ := held_of_closed hclosed hk htoken
  obtain ⟨i, hi, rfl⟩ := hseen earlier hearlier
  rw [hnow] at htoken
  exact hreturn k hk i seen.length hi hheld htoken

/-- A key that is reached in one step only is replaced in the second pass. -/
theorem substitute_leaves_nested :
    ∃ m text, text = "a __CHTL_STYLE_00000000_0__ b".toList ∧ NoReturn m text ∧
      substitute m text = "a [inner] b".toList ∧
      (∃ k ∈ keys m, k ∉ tokens text ∧ k ∈ tokens (expansion m text 1)) ∧
      ∀ k ∈ keys m, k ∉ tokens (substitute m text) := by
  obtain ⟨text, htext⟩ : ∃ t, t = "a __CHTL_STYLE_00000000_0__ b".toList := ⟨_, rfl⟩
  obtain ⟨m, hm⟩ : ∃ m : Replacements, m =
    [("__CHTL_STYLE_00000000_0__".toList, "[__CHTL_STYLE_00000000_1__]".toList),
      ("__CHTL_STYLE_00000000_1__".toList, "inner".toList)] := ⟨_, rfl⟩
  rw [String.toList_ofList] at htext
  iterate 4 rw [String.toList_ofList] at hm
  have hlater (n : Nat) : tokens (expansion m text (n + 2)) = [] ∧
      pass m (expansion m text (n + 2)) = expansion m text (n + 2) := by
    induction n with
    | zero =>
      rw [hm, htext]
      decide +kernel
    | succ n ih =>
      have heq : expansion m text (n + 1 + 2) = expansion m text (n + 2) := ih.2
      rwa [heq]
  have hnext : ∀ k ∈ keys m, k <:+: text → k ∉ tokens (expansion m text 1) := by
    rw [hm, htext]
    decide +kernel
  have hreturn : NoReturn m text := by
    intro k hk i j hij hheld htoken
    match j, i, hij with
    | 1, 0, _ => exact hnext k hk hheld htoken
    | n + 2, _, _ =>
      rw [(hlater n).1] at htoken
      cases htoken
  obtain ⟨seen, -, -, -, hplain⟩ := substitute_leaves m text
  refine ⟨m, text, by rw [htext, String.toList_ofList], hreturn, ?_, ?_, (hplain hreturn).2⟩
  · rw [hm, htext, String.toList_ofList]
    decide +kernel
  · rw [hm, htext]
    decide +kernel

/-- A key refers to the keys that occur in its text. -/
def Refers (m : Replacements) (k k' : List Char) : Prop :=
  ∃ value, m.get? k = some value ∧ k' ∈ keys m ∧ k' <:+: value

/-- A key that is reached in no step and in one step stays, although no reference leads back. -/
theorem substitute_leaves_returned :
    ∃ m text, text = "__CHTL_STYLE_00000000_0__ __CHTL_STYLE_00000000_1__".toList ∧
      (∀ k ∈ keys m, IsToken k) ∧ (∀ k, ¬ Relation.TransGen (Refers m) k k) ∧
      substitute m text = "[__CHTL_STYLE_00000000_1__] inner".toList ∧
      ∃ k ∈ keys m, k ∈ tokens (substitute m text) := by
  obtain ⟨zero, hzero⟩ : ∃ k, k = "__CHTL_STYLE_00000000_0__".toList := ⟨_, rfl⟩
  obtain ⟨one, hone⟩ : ∃ k, k = "__CHTL_STYLE_00000000_1__".toList := ⟨_, rfl⟩
  obtain ⟨m, hm⟩ : ∃ m : Replacements,
    m = [(zero, '[' :: (one ++ [']'])), (one, "inner".toList)] := ⟨_, rfl⟩
  rw [String.toList_ofList] at hzero hone
  have hrefers : ∀ k ∈ keys m, ∀ value ∈ m.get? k, ∀ k' ∈ keys m, k' <:+: value →
      k = zero ∧ k' = one := by
    rw [hm, hzero, hone]
    decide +kernel
  have hedge {k k' : List Char} (h : Refers m k k') : k = zero ∧ k' = one := by
    obtain ⟨value, hvalue, hk', hpart⟩ := h
    have hk : k ∈ keys m := by
      by_contra hnot
      rw [get?_eq_none_iff.mpr hnot] at hvalue
      cases hvalue
    exact hrefers k hk value hvalue k' hk' hpart
  have hne : zero ≠ one := by
    rw [hzero, hone]
    decide
  refine ⟨m, _, rfl, ?_, fun k hcycle => ?_, ?_, one, ?_, ?_⟩
  · rw [hm, hzero, hone]
    decide +kernel
  · obtain ⟨next, hfirst, -⟩ := Relation.TransGen.head'_iff.mp hcycle
    obtain ⟨last, -, hlast⟩ := Relation.TransGen.tail'_iff.mp hcycle
    exact hne ((hedge hfirst).1.symm.trans (hedge hlast).2)
  · rw [hm, hzero, hone, String.toList_ofList]
    decide +kernel
  · rw [hm]
    simp [keys]
  · rw [hm, hzero, hone, String.toList_ofList]
    decide +kernel

end Chtl.Output
