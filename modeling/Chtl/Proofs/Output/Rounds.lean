import Chtl.Proofs.Output.Substitution
import Mathlib.Data.Finset.Card
import Mathlib.Data.Finset.SDiff

/-!
# Rounds of a substitution

Substituting is a loop that holds a text and the keys it has resolved. A round replaces the keys of
the text that are not resolved; a round that finds none is the last one. The text may grow in every
round, and keys may come back or stand in their own texts, but a round that changes something
resolves a key. So the keys that are not resolved become fewer, and there is at most one round more
than there are keys.
-/

set_option autoImplicit false
set_option linter.all false

namespace Chtl.Output

open Text

/-- What is known between two rounds. -/
structure Loop where
  resolved : Finset (List Char) := ∅
  text : List Char

namespace Loop

variable (m : Replacements) (l : Loop)

/-- The text that takes the place of a placeholder, if it is a key that is not resolved. -/
def replacement? (t : List Char) : Option (List Char) :=
  if t ∈ l.resolved then none else m.get? t

/-- Whether a round finds something to replace. -/
def changes : Bool := (tokens l.text).any fun t => (l.replacement? m t).isSome

/-- What is known after a round: the keys that the text held are resolved, replaced or not. -/
def next : Loop where
  resolved := l.resolved ∪ (keys m).toFinset.filter fun k => contains l.text k = true
  text := mapTokens (fun t => (l.replacement? m t).getD t) l.text

/-- The loop is left after a number of rounds, the last of which finds nothing, with a text. -/
inductive Ends : Loop → Nat → List Char → Prop
  | last {l : Loop} (done : l.changes m = false) : Ends l 1 l.text
  | round {l : Loop} {n : Nat} {out : List Char} (more : l.changes m = true)
      (rest : Ends (l.next m) n out) : Ends l (n + 1) out

/-- The keys that are not resolved. -/
def waiting : Finset (List Char) := (keys m).toFinset \ l.resolved

/-- The entries of the keys that are not resolved. -/
def pending : Replacements := m.filter fun entry => decide (entry.1 ∉ l.resolved)

variable {m l}

theorem mem_keys_of_replacement? {t : List Char} (h : (l.replacement? m t).isSome = true) :
    t ∈ keys m ∧ t ∉ l.resolved := by
  unfold replacement? at h
  split_ifs at h with hresolved
  · cases h
  · refine ⟨?_, hresolved⟩
    by_contra hkey
    rw [get?_eq_none_iff.mpr hkey] at h
    cases h

/-- A round that changes something resolves a key, and none is unresolved again. -/
theorem waiting_next_ssubset (h : l.changes m = true) :
    (l.next m).waiting m ⊂ l.waiting m := by
  obtain ⟨t, htoken, hreplaced⟩ := List.any_eq_true.mp h
  obtain ⟨hkey, hwaiting⟩ := mem_keys_of_replacement? hreplaced
  have hheld : contains l.text t = true := contains_of_part (part_of_mem_tokens htoken)
  refine Finset.ssubset_iff_subset_ne.mpr ⟨?_, fun heq => ?_⟩
  · exact Finset.sdiff_subset_sdiff (Finset.Subset.refl _) Finset.subset_union_left
  · have hbefore : t ∈ l.waiting m := by simp [waiting, hkey, hwaiting]
    have hafter : t ∉ (l.next m).waiting m := by simp [waiting, next, hkey, hheld]
    rw [heq] at hafter
    exact hafter hbefore

theorem get?_pending (t : List Char) : (l.pending m).get? t = l.replacement? m t := by
  rw [Table.get?, pending, List.find?_filter, replacement?]
  split_ifs with hresolved
  · rw [Option.map_eq_none_iff, List.find?_eq_none]
    rintro entry - hentry
    simp only [decide_eq_true_eq] at hentry
    exact hentry.1 (hentry.2 ▸ hresolved)
  · rw [Table.get?]
    congr 2
    funext entry
    by_cases hkey : entry.1 = t
    · simp [hkey, hresolved]
    · simp [hkey]

theorem isOpen_pending : isOpen (l.pending m) l.text = l.changes m := by
  simp only [isOpen, get?_pending, changes]

theorem pass_pending : pass (l.pending m) l.text = (l.next m).text := by
  simp only [pass, get?_pending, next]

theorem unresolved_pending : unresolved (l.pending m) l.text = (l.next m).pending m := by
  rw [unresolved, pending, List.filter_filter, pending]
  refine List.filter_congr fun entry hentry => ?_
  have hkey : entry.1 ∈ keys m := List.mem_map.mpr ⟨entry, hentry, rfl⟩
  simp [next, hkey, Bool.and_comm]

/-- A round leads to the same text as what is left. -/
theorem substitute_next (h : l.changes m = true) :
    substitute (l.pending m) l.text = substitute ((l.next m).pending m) (l.next m).text := by
  rw [substitute, dif_pos (isOpen_pending.trans h), unresolved_pending, pass_pending]

theorem substitute_last (h : l.changes m = false) : substitute (l.pending m) l.text = l.text := by
  rw [substitute, dif_neg (by rw [isOpen_pending, h]; exact Bool.false_ne_true)]

theorem Ends.eq_substitute {n : Nat} {out : List Char} (h : Ends m l n out) :
    out = substitute (l.pending m) l.text := by
  induction h with
  | last done => exact (substitute_last done).symm
  | round more rest ih => rw [substitute_next more, ih]

theorem Ends.rounds_unique {n k : Nat} {out out' : List Char} (h : Ends m l n out)
    (h' : Ends m l k out') : k = n := by
  induction h generalizing k with
  | last done =>
    cases h' with
    | last => rfl
    | round more => exact absurd (done.symm.trans more) Bool.false_ne_true
  | round more rest ih =>
    cases h' with
    | last done => exact absurd (done.symm.trans more) Bool.false_ne_true
    | round _ rest' => rw [ih rest']

/-- The loop is left, and every round but the last one resolves a key. -/
theorem exists_ends (m : Replacements) (l : Loop) :
    ∃ n out, n ≤ (l.waiting m).card + 1 ∧ Ends m l n out := by
  induction hcard : (l.waiting m).card using Nat.strong_induction_on generalizing l with
  | _ count ih =>
    cases hchanges : l.changes m with
    | false => exact ⟨1, l.text, by omega, .last hchanges⟩
    | true =>
      have hlt := Finset.card_lt_card (waiting_next_ssubset hchanges)
      obtain ⟨n, out, hn, hends⟩ := ih _ (hcard ▸ hlt) (l.next m) rfl
      exact ⟨n + 1, out, by omega, .round hchanges hends⟩

end Loop

/-- Substituting ends for every text and every map, after one certain number of rounds, which is at
most one more than the number of keys. -/
theorem substitute_rounds (m : Replacements) (cs : List Char) :
    ∃ n ≤ (keys m).toFinset.card + 1,
      ∀ k out, Loop.Ends m ⟨∅, cs⟩ k out ↔ k = n ∧ out = substitute m cs := by
  obtain ⟨n, out, hn, hends⟩ := Loop.exists_ends m ⟨∅, cs⟩
  have hwaiting : Loop.waiting m ⟨∅, cs⟩ = (keys m).toFinset := Finset.sdiff_empty
  have hpending : Loop.pending m ⟨∅, cs⟩ = m := by simp [Loop.pending]
  refine ⟨n, hwaiting ▸ hn, fun k out' => ⟨fun h => ?_, ?_⟩⟩
  · have hout := h.eq_substitute
    rw [hpending] at hout
    exact ⟨hends.rounds_unique h, hout⟩
  · rintro ⟨rfl, rfl⟩
    have hout := hends.eq_substitute
    rw [hpending] at hout
    exact hout ▸ hends

/-- Two keys that stand for one another are replaced once each: as many rounds as there may be. -/
example :
    let zero := "__CHTL_STYLE_00000000_0__".toList
    let one := "__CHTL_STYLE_00000000_1__".toList
    let m : Replacements := [(zero, one), (one, zero)]
    (keys m).toFinset.card = 2 ∧ Loop.Ends m ⟨∅, zero⟩ 3 zero := by
  intro zero one m
  have hback : ((Loop.next m ⟨∅, zero⟩).next m).text = zero := by decide +kernel
  have hlast := Loop.Ends.last (show ((Loop.next m ⟨∅, zero⟩).next m).changes m = false by
    decide +kernel)
  rw [hback] at hlast
  exact ⟨by decide +kernel, .round (by decide +kernel) (.round (by decide +kernel) hlast)⟩

end Chtl.Output
