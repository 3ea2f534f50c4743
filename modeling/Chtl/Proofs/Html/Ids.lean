import Chtl.Html.Ids
import Chtl.Proofs.Text.Basic
import Mathlib.Data.List.Nodup
import Mathlib.Data.List.Perm.Subperm

/-!
# Generated ids are new

Different numbers give different ids, so among more numbers than there are ids in use one is free,
and the pool finds it.
-/

set_option autoImplicit false
set_option linter.all false

namespace Chtl.Html.IdPool

theorem idText_injective {stem : IdStem} {m n : Nat} (h : idText stem m = idText stem n) :
    m = n := by
  have htext : stem.text ++ "-" ++ toString m = stem.text ++ "-" ++ toString n := h
  exact Text.toString_injective (by simpa using htext)

/-- If the number found is in use, all that were tried are. -/
theorem taken_of_firstFree {stem : IdStem} {taken : List String} {tries n : Nat}
    (h : idText stem (firstFree stem taken tries n) ∈ taken) {k : Nat} (hn : n ≤ k)
    (hk : k ≤ n + tries) : idText stem k ∈ taken := by
  induction tries generalizing n with
  | zero =>
    obtain rfl : k = n := by omega
    exact h
  | succ tries ih =>
    rw [firstFree] at h
    split_ifs at h with htaken
    · by_cases hkn : k = n
      · rw [hkn]
        simpa using htaken
      · exact ih h (by omega) (by omega)
    · exact absurd h (by simpa using htaken)

theorem firstFree_not_taken (stem : IdStem) (taken : List String) (n : Nat) :
    idText stem (firstFree stem taken taken.length n) ∉ taken := by
  intro h
  have hnodup : ((List.range (taken.length + 1)).map fun i => idText stem (n + i)).Nodup := by
    refine List.nodup_range.map ?_
    intro i j hij
    have := idText_injective hij
    omega
  have hsubset : ((List.range (taken.length + 1)).map fun i => idText stem (n + i)) ⊆ taken := by
    intro id hid
    obtain ⟨i, hi, rfl⟩ := List.mem_map.mp hid
    have hi := List.mem_range.mp hi
    exact taken_of_firstFree h (by omega) (by omega)
  have hlength := (List.subperm_of_subset hnodup hsubset).length_le
  rw [List.length_map, List.length_range] at hlength
  omega

/-- The id that a pool hands out was not in use and now is. -/
theorem allocate_fresh (p : IdPool) (stem : IdStem) :
    (∃ n, (p.allocate stem).1 = idText stem n) ∧ (p.allocate stem).1 ∉ p.taken ∧
      (p.allocate stem).2.taken = (p.allocate stem).1 :: p.taken := by
  unfold allocate
  cases stem with
  | element => exact ⟨⟨_, rfl⟩, firstFree_not_taken _ _ _, rfl⟩
  | rendering => exact ⟨⟨_, rfl⟩, firstFree_not_taken _ _ _, rfl⟩

end Chtl.Html.IdPool
