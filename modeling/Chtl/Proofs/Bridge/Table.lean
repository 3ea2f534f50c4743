import Chtl.Bridge.Table
import Mathlib.Data.String.Basic

/-!
# What tables hold

The keys of a table ascend, so each has one entry. Pushing collects the values of a key in the order
in which they come, and of several values inserted under one key the last one stays. Items are
grouped by pushing each under its key.
-/

set_option autoImplicit false
set_option linter.all false

namespace Chtl.Table

variable {κ α : Type}

/-- The values of a table, each with its key. -/
def entries (t : Table κ (List α)) : List (κ × α) :=
  t.flatMap fun entry => entry.2.map (entry.1, ·)

theorem entries_cons (key : κ) (values : List α) (t : Table κ (List α)) :
    entries ((key, values) :: t) = values.map (key, ·) ++ t.entries := List.flatMap_cons

variable [LinearOrder κ] {t : Table κ α} {key other : κ}

def Sorted (t : Table κ α) : Prop := t.Pairwise fun a b => a.1 < b.1

theorem get?_nil (other : κ) : get? ([] : Table κ α) other = none := rfl

theorem get?_cons (entry : κ × α) (t : Table κ α) (other : κ) :
    get? (entry :: t) other = if entry.1 = other then some entry.2 else t.get? other := by
  unfold get?
  by_cases h : entry.1 = other
  · simp [h]
  · simp [h]

theorem get?_eq_none_of_lt (h : ∀ entry ∈ t, other < entry.1) : t.get? other = none := by
  induction t with
  | nil => rfl
  | cons entry t ih =>
    have hne : entry.1 ≠ other := (h entry List.mem_cons_self).ne'
    rw [get?_cons, if_neg hne]
    exact ih fun e he => h e (List.mem_cons_of_mem _ he)

/-- The keys of an altered table are those it had, and the one that was altered. -/
theorem key_of_mem_alter {f : Option α → α} {entry : κ × α} (h : entry ∈ t.alter key f) :
    entry.1 = key ∨ ∃ e ∈ t, e.1 = entry.1 := by
  induction t with
  | nil =>
    rw [alter, List.mem_singleton] at h
    exact .inl (by rw [h])
  | cons first t ih =>
    obtain ⟨k, a⟩ := first
    have hlater (h : entry ∈ t) : entry.1 = key ∨ ∃ e ∈ (k, a) :: t, e.1 = entry.1 :=
      .inr ⟨entry, List.mem_cons_of_mem _ h, rfl⟩
    rw [alter] at h
    split_ifs at h
    · rcases List.mem_cons.mp h with rfl | h
      · exact .inr ⟨(k, a), List.mem_cons_self, rfl⟩
      · exact hlater h
    · rcases List.mem_cons.mp h with rfl | h
      · exact .inl rfl
      · exact .inr ⟨entry, h, rfl⟩
    · rcases List.mem_cons.mp h with rfl | h
      · exact .inr ⟨(k, a), List.mem_cons_self, rfl⟩
      · rcases ih h with h | ⟨e, he, hkey⟩
        · exact .inl h
        · exact .inr ⟨e, List.mem_cons_of_mem _ he, hkey⟩

theorem Sorted.alter (h : t.Sorted) (key : κ) (f : Option α → α) : (t.alter key f).Sorted := by
  induction t with
  | nil => simp [Table.alter, Sorted]
  | cons first t ih =>
    obtain ⟨k, a⟩ := first
    obtain ⟨hfirst, ht⟩ := List.pairwise_cons.mp h
    rw [Table.alter]
    split_ifs with heq hlt
    · exact List.pairwise_cons.mpr ⟨hfirst, ht⟩
    · refine List.pairwise_cons.mpr ⟨?_, h⟩
      intro e he
      rcases List.mem_cons.mp he with rfl | he
      · exact hlt
      · exact lt_trans hlt (hfirst e he)
    · refine List.pairwise_cons.mpr ⟨?_, ih ht⟩
      intro e he
      rcases key_of_mem_alter he with hkey | ⟨e', he', hkey⟩
      · rw [hkey]
        exact lt_of_le_of_ne (not_lt.mp hlt) (Ne.symm heq)
      · rw [← hkey]
        exact hfirst e' he'

theorem get?_alter (h : t.Sorted) (key : κ) (f : Option α → α) (other : κ) :
    (t.alter key f).get? other = if key = other then some (f (t.get? key)) else t.get? other := by
  induction t with
  | nil => simp [alter, get?_cons, get?_nil]
  | cons first t ih =>
    obtain ⟨k, a⟩ := first
    obtain ⟨hfirst, ht⟩ := List.pairwise_cons.mp h
    rw [alter]
    by_cases heq : key = k
    · rw [if_pos heq, get?_cons, get?_cons, get?_cons, heq, if_pos rfl]
      by_cases hother : k = other
      · simp [hother]
      · simp [hother]
    · rw [if_neg heq]
      by_cases hlt : key < k
      · have hnone : get? ((k, a) :: t) key = none := by
          apply get?_eq_none_of_lt
          intro e he
          rcases List.mem_cons.mp he with rfl | he
          · exact hlt
          · exact lt_trans hlt (hfirst e he)
        rw [if_pos hlt, get?_cons, hnone]
      · rw [if_neg hlt, get?_cons, get?_cons, get?_cons, ih ht, if_neg (Ne.symm heq)]
        by_cases hother : k = other
        · rw [if_pos hother, if_pos hother, if_neg (by rwa [← hother])]
        · rw [if_neg hother, if_neg hother]

/-- Pushes a list of values, each under its key. -/
def pushAll (t : Table κ (List α)) (items : List (κ × α)) : Table κ (List α) :=
  items.foldl (fun t item => t.push item.1 item.2) t

/-- Inserts a list of values, each under its key. -/
def insertAll (t : Table κ α) (items : List (κ × α)) : Table κ α :=
  items.foldl (fun t item => t.insert item.1 item.2) t

theorem pushAll_append (t : Table κ (List α)) (items more : List (κ × α)) :
    t.pushAll (items ++ more) = (t.pushAll items).pushAll more := List.foldl_append

theorem insertAll_append (t : Table κ α) (items more : List (κ × α)) :
    t.insertAll (items ++ more) = (t.insertAll items).insertAll more := List.foldl_append

theorem Sorted.insertAll (h : t.Sorted) (items : List (κ × α)) :
    (t.insertAll items).Sorted := by
  induction items generalizing t with
  | nil => exact h
  | cons item items ih => exact ih (h.alter _ _)

theorem entries_push (t : Table κ (List α)) (key : κ) (a : α) :
    (t.push key a).entries.Perm (t.entries ++ [(key, a)]) := by
  unfold push
  induction t with
  | nil => rfl
  | cons first t ih =>
    obtain ⟨k, values⟩ := first
    rw [alter]
    split_ifs with heq hlt
    · have hlast := (List.perm_append_singleton (k, a) (entries t)).symm
      rw [entries_cons, entries_cons, heq]
      simpa using hlast.append_left (values.map (k, ·))
    · exact (List.perm_append_singleton (key, a) _).symm
    · rw [entries_cons, entries_cons, List.append_assoc]
      exact ih.append_left _

/-- Every value that is pushed is there once more. -/
theorem entries_pushAll (t : Table κ (List α)) (items : List (κ × α)) :
    (t.pushAll items).entries.Perm (t.entries ++ items) := by
  induction items generalizing t with
  | nil => simp [pushAll]
  | cons item items ih =>
    have hrest := (ih (t.push item.1 item.2)).trans
      ((t.entries_push item.1 item.2).append_right items)
    simpa [pushAll] using hrest

theorem mem_insertAll {items : List (κ × α)} {entry : κ × α}
    (h : entry ∈ t.insertAll items) : entry ∈ t ∨ entry ∈ items := by
  have hinsert {t : Table κ α} {key : κ} {a : α} (h : entry ∈ t.insert key a) :
      entry ∈ t ∨ entry = (key, a) := by
    unfold insert at h
    induction t with
    | nil => exact .inr (by simpa [alter] using h)
    | cons first t ih =>
      obtain ⟨k, b⟩ := first
      rw [alter] at h
      split_ifs at h with heq hlt
      · rcases List.mem_cons.mp h with rfl | h
        · exact .inr (by rw [heq])
        · exact .inl (List.mem_cons_of_mem _ h)
      · exact (List.mem_cons.mp h).symm
      · rcases List.mem_cons.mp h with rfl | h
        · exact .inl List.mem_cons_self
        · exact (ih h).imp_left (List.mem_cons_of_mem _)
  induction items generalizing t with
  | nil => exact .inl h
  | cons item items ih =>
    rcases ih h with h | h
    · exact (hinsert h).imp_right fun h => by simp [h]
    · exact .inr (List.mem_cons_of_mem _ h)

theorem get?_insertAll (h : t.Sorted) (items : List (κ × α)) (key : κ) :
    (t.insertAll items).get? key =
      ((items.filter (·.1 = key)).getLast?.map (·.2)).or (t.get? key) := by
  induction items generalizing t with
  | nil => simp [insertAll]
  | cons item items ih =>
    have hrest := ih (t := t.insert item.1 item.2) (h.alter _ _)
    change (Table.insertAll (t.insert item.1 item.2) items).get? key = _
    rw [hrest, insert, get?_alter h]
    by_cases hkey : item.1 = key
    · rw [List.filter_cons_of_pos (by simpa using hkey), List.getLast?_cons, if_pos hkey]
      cases (items.filter (·.1 = key)).getLast? <;> rfl
    · rw [List.filter_cons_of_neg (by simpa using hkey), if_neg hkey]

/-! ## Groups -/

end Chtl.Table
