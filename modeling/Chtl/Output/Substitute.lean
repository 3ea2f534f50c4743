import Chtl.Bridge.Table
import Chtl.Output.Token

/-!
# Substituting placeholders

Placeholders are replaced by texts that may hold placeholders themselves, so the replacing is done
in passes. A placeholder that stood in the text of a pass counts as resolved after it and is left
alone from then on, so the passes come to an end whatever the texts refer to.
-/

set_option autoImplicit false
set_option linter.all false

namespace Chtl.Output

open Text

/-- Texts for placeholders. -/
abbrev Replacements := Table (List Char) (List Char)

/-- Replaces the placeholders that have a text. -/
def pass (pending : Replacements) (cs : List Char) : List Char :=
  mapTokens (fun t => (pending.get? t).getD t) cs

/-- Whether a pass has anything to replace. -/
def isOpen (pending : Replacements) (cs : List Char) : Bool :=
  (tokens cs).any fun t => (pending.get? t).isSome

/-- What is left to resolve after a pass over a text. -/
def unresolved (pending : Replacements) (cs : List Char) : Replacements :=
  pending.filter fun entry => !contains cs entry.1

theorem startsWith_append (lead rest : List Char) : startsWith (lead ++ rest) lead = true := by
  induction lead with
  | nil => simp [startsWith, after?]
  | cons l ls ih => simpa [startsWith, after?] using ih

/-- A part of a text is found in it. -/
theorem contains_of_part {t cs : List Char} (h : t <:+: cs) : contains cs t = true := by
  obtain ⟨as, bs, rfl⟩ := h
  induction as with
  | nil =>
    have hs := startsWith_append t bs
    cases htb : t ++ bs with
    | nil => simp_all [contains, find?]
    | cons c cs => simp_all [contains, find?]
  | cons a as ih =>
    simp only [contains, List.cons_append, find?]
    split
    · rfl
    · simpa [contains] using ih

/-- A pass that replaces something resolves something. -/
theorem length_unresolved_lt {pending : Replacements} {cs : List Char}
    (h : isOpen pending cs = true) : (unresolved pending cs).length < pending.length := by
  obtain ⟨t, ht, hp⟩ := List.any_eq_true.mp h
  obtain ⟨value, hv⟩ := Option.isSome_iff_exists.mp hp
  simp only [Table.get?, Option.map_eq_some_iff] at hv
  obtain ⟨entry, hf, -⟩ := hv
  have hk : entry.1 = t := by simpa using List.find?_some hf
  refine List.length_filter_lt_length_iff_exists.mpr ⟨entry, List.mem_of_find?_eq_some hf, ?_⟩
  simp [hk, contains_of_part (part_of_mem_tokens ht)]

/-- Replaces placeholders until a pass would change nothing. -/
def substitute (pending : Replacements) (cs : List Char) : List Char :=
  if _h : isOpen pending cs = true then substitute (unresolved pending cs) (pass pending cs) else cs
termination_by pending.length
decreasing_by exact length_unresolved_lt _h

end Chtl.Output
