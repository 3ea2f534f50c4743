import Chtl.Style.Resolve
import Mathlib.Data.List.Dedup
import Mathlib.Data.List.Induction

/-!
# What a style is made of

A style under construction is a function of the settings made so far: those of the element itself
and those of the branches that fired. The properties that only branches set stand in front, in the
order in which they were first set, and the element's own ones follow. Every property has the text
it was given last.
-/

set_option autoImplicit false
set_option linter.all false

namespace Chtl

section

variable {α : Type} [DecidableEq α] {l : List α} {a : α}

/-- A list with only the first occurrence of each of its elements. -/
def firsts (l : List α) : List α := l.reverse.dedup.reverse

theorem mem_firsts : a ∈ firsts l ↔ a ∈ l := by
  simp [firsts]

theorem nodup_firsts (l : List α) : (firsts l).Nodup :=
  List.nodup_reverse.mpr (List.nodup_dedup _)

theorem firsts_eq_self (h : l.Nodup) : firsts l = l := by
  rw [firsts, (List.nodup_reverse.mpr h).dedup, List.reverse_reverse]

theorem firsts_concat (l : List α) (a : α) :
    firsts (l ++ [a]) = if a ∈ l then firsts l else firsts l ++ [a] := by
  rw [firsts, List.reverse_concat, List.dedup_cons]
  by_cases h : a ∈ l <;> simp [h, firsts]

end

/-- Properties and the texts they are given, in the order in which that happens. -/
abbrev Settings := List (String × String)

namespace Settings

def keys (s : Settings) : List String := s.map Prod.fst

/-- The text a property was given last. -/
def last? (s : Settings) (key : String) : Option String := s.reverse.lookup key

theorem keys_append (s t : Settings) : keys (s ++ t) = s.keys ++ t.keys := List.map_append

theorem keys_concat (s : Settings) (key text : String) :
    keys (s ++ [(key, text)]) = s.keys ++ [key] := keys_append s _

theorem lookup_cons (setting : String × String) (s : Settings) (key : String) :
    List.lookup key (setting :: s) = if key = setting.1 then some setting.2 else s.lookup key := by
  obtain ⟨k, text⟩ := setting
  rw [List.lookup_cons]
  split <;> simp_all

theorem lookup_eq_none {s : Settings} {key : String} (h : key ∉ s.keys) : s.lookup key = none := by
  rw [List.lookup_eq_none_iff]
  intro setting hs
  exact bne_iff_ne.mpr fun heq => h (heq ▸ List.mem_map_of_mem hs)

theorem last?_concat (s : Settings) (key text other : String) :
    last? (s ++ [(key, text)]) other = if other = key then some text else s.last? other := by
  rw [last?, List.reverse_concat, lookup_cons, last?]

theorem isSome_last? (s : Settings) (key : String) : (s.last? key).isSome ↔ key ∈ s.keys := by
  induction s using List.reverseRecOn with
  | nil => simp [last?, keys]
  | append_singleton s setting ih =>
    obtain ⟨k, text⟩ := setting
    rw [last?_concat, keys_concat, List.mem_append, ← ih]
    by_cases h : key = k <;> simp [h]

end Settings

namespace StyleMap

variable {m : StyleMap} {key text : String}

def keys (m : StyleMap) : List String := Settings.keys m.entries

theorem get?_eq_lookup (m : StyleMap) (key : String) : m.get? key = m.entries.lookup key := by
  obtain ⟨entries⟩ := m
  induction entries with
  | nil => rfl
  | cons entry entries ih =>
    rw [get?] at ih ⊢
    rw [Settings.lookup_cons, ← ih, List.find?_cons]
    by_cases h : key = entry.1
    · simp [h]
    · simp [h, beq_eq_false_iff_ne.mpr (Ne.symm h)]

theorem contains_eq (m : StyleMap) (key : String) : m.contains key = decide (key ∈ m.keys) := by
  rw [Bool.eq_iff_iff, decide_eq_true_iff]
  simp [contains, get?, keys, Settings.keys]

theorem keys_overwrite (entries : Settings) :
    Settings.keys (overwrite key text entries) = entries.keys := by
  induction entries with
  | nil => rfl
  | cons entry entries ih =>
    rw [overwrite]
    split
    · rfl
    · exact congrArg (entry.1 :: ·) ih

theorem lookup_overwrite {entries : Settings} (h : key ∈ entries.keys) (other : String) :
    (overwrite key text entries).lookup other =
      if other = key then some text else entries.lookup other := by
  induction entries with
  | nil => exact absurd h List.not_mem_nil
  | cons entry entries ih =>
    rw [overwrite]
    split
    · next heq => rw [Settings.lookup_cons, Settings.lookup_cons, heq]; split <;> rfl
    · next hne =>
      have hrest : key ∈ Settings.keys entries := (List.mem_cons.mp h).resolve_left (Ne.symm hne)
      rw [Settings.lookup_cons, ih hrest, Settings.lookup_cons]
      split <;> grind

theorem keys_set : (m.set key text).keys = if key ∈ m.keys then m.keys else m.keys ++ [key] := by
  rw [set, contains_eq]
  by_cases h : key ∈ m.keys
  · rw [if_pos (decide_eq_true h), if_pos h, keys, keys_overwrite, keys]
  · rw [if_neg (by simpa using h), if_neg h, keys, Settings.keys_concat, keys]

theorem keys_insertAt (index : Nat) :
    (m.insertAt index key text).keys = m.keys.take index ++ key :: m.keys.drop index := by
  simp [keys, Settings.keys, insertAt]

theorem get?_insertAt (index : Nat) (h : key ∉ m.keys) (other : String) :
    (m.insertAt index key text).get? other = if other = key then some text else m.get? other := by
  have hsplit := List.take_append_drop index m.entries
  have hfront : key ∉ Settings.keys (m.entries.take index) := fun hmem =>
    h (List.map_subset _ (List.take_subset _ _) hmem)
  rw [get?_eq_lookup, insertAt, List.lookup_append, Settings.lookup_cons, get?_eq_lookup]
  split
  · next heq => rw [heq, Settings.lookup_eq_none hfront, Option.none_or]
  · rw [← List.lookup_append, hsplit]

theorem get?_set (other : String) :
    (m.set key text).get? other = if other = key then some text else m.get? other := by
  rw [set, contains_eq]
  by_cases h : key ∈ m.keys
  · rw [if_pos (decide_eq_true h), get?_eq_lookup, lookup_overwrite h, get?_eq_lookup]
  · have hend : (m.insertAt m.entries.length key text).get? other = _ := get?_insertAt _ h other
    rw [insertAt, List.take_length, List.drop_length] at hend
    rw [if_neg (by simpa using h), hend]

end StyleMap

/-- The settings an element made and those that the branches that fired made after them. -/
structure Given where
  own : Settings
  assigned : Settings := []

namespace Given

variable (g : Given)

/-- The properties of the element itself. -/
def ownKeys : List String := firsts g.own.keys

/-- The properties that only branches set. -/
def newKeys : List String := firsts (g.assigned.keys.filter (· ∉ g.own.keys))

def keys : List String := g.newKeys ++ g.ownKeys

def last? (key : String) : Option String := Settings.last? (g.own ++ g.assigned) key

def entry (key : String) : String × String := (key, (g.last? key).getD "")

def style : StyleMap := ⟨g.keys.map g.entry⟩

/-- The layers of a style under construction. -/
def layers : Layers := ⟨g.style, g.newKeys.length⟩

/-- One more setting by a branch. -/
def assign (key text : String) : Given := { g with assigned := g.assigned ++ [(key, text)] }

variable {g}

theorem mem_keys {key : String} : key ∈ g.keys ↔ (g.last? key).isSome := by
  simp only [last?, Settings.isSome_last?, Settings.keys_append, keys, newKeys, ownKeys,
    List.mem_append, mem_firsts, List.mem_filter, decide_eq_true_iff]
  tauto

theorem nodup_keys : g.keys.Nodup := by
  refine List.nodup_append.mpr ⟨nodup_firsts _, nodup_firsts _, ?_⟩
  rintro key hnew other hown rfl
  simp only [newKeys, ownKeys, mem_firsts, List.mem_filter, decide_eq_true_eq] at hnew hown
  exact hnew.2 hown

theorem keys_style : g.style.keys = g.keys := by
  simp [StyleMap.keys, Settings.keys, style, entry, Function.comp_def]

theorem get?_style (key : String) : g.style.get? key = g.last? key := by
  simp only [StyleMap.get?, style, List.find?_map, Function.comp_def, entry, Option.map_map]
  cases htext : g.last? key with
  | none =>
    have hmem : key ∉ g.keys := by simp [mem_keys, htext]
    have hfind : g.keys.find? (· == key) = none :=
      List.find?_eq_none.mpr fun k hk heq => hmem (eq_of_beq heq ▸ hk)
    rw [hfind]
    rfl
  | some text =>
    have hmem : key ∈ g.keys := by simp [mem_keys, htext]
    obtain ⟨k, hk⟩ := Option.isSome_iff_exists.mp
      (List.find?_isSome (p := (· == key)).mpr ⟨key, hmem, beq_self_eq_true key⟩)
    obtain rfl : k = key := eq_of_beq (List.find?_some (p := (· == key)) hk)
    simp [hk, htext]

/-- A map that has the right properties in the right order, with the right texts, is the style. -/
theorem eq_style {m : StyleMap} (hkeys : m.keys = g.keys)
    (hget : ∀ key, m.get? key = g.last? key) : m = g.style := by
  have hnodup : m.keys.Nodup := hkeys ▸ nodup_keys
  obtain ⟨entries⟩ := m
  have hentry (setting : String × String) (hs : setting ∈ entries) :
      g.entry setting.1 = setting := by
    have hlookup : entries.lookup setting.1 = some setting.2 := by
      obtain ⟨before, after, rfl⟩ := List.append_of_mem hs
      have hbefore : setting.1 ∉ Settings.keys before := fun hmem => by
        rw [StyleMap.keys, Settings.keys_append] at hnodup
        exact (List.nodup_append.mp hnodup).2.2 _ hmem _ List.mem_cons_self rfl
      rw [List.lookup_append, Settings.lookup_eq_none hbefore, Option.none_or,
        Settings.lookup_cons, if_pos rfl]
    rw [entry, ← hget, StyleMap.get?_eq_lookup, hlookup]
    rfl
  rw [style, ← hkeys, StyleMap.keys, Settings.keys, List.map_map]
  congr 1
  exact (List.map_id entries).symm.trans (List.map_congr_left fun e he => (hentry e he).symm)

/-! ### One more setting -/

section

variable {key text : String}

theorem last?_assign (other : String) :
    (g.assign key text).last? other = if other = key then some text else g.last? other := by
  rw [last?, assign, ← List.append_assoc, Settings.last?_concat, last?]

theorem newKeys_assign :
    (g.assign key text).newKeys = if key ∈ g.keys then g.newKeys else g.newKeys ++ [key] := by
  rw [newKeys, assign, Settings.keys_concat, List.filter_append]
  by_cases hown : key ∈ g.own.keys
  · have hmem : key ∈ g.keys := List.mem_append_right _ (mem_firsts.mpr hown)
    rw [List.filter_cons_of_neg (by simpa using hown), List.filter_nil, List.append_nil,
      if_pos hmem, newKeys]
  · have hmem : key ∈ g.keys ↔ key ∈ g.assigned.keys.filter (· ∉ g.own.keys) := by
      simp [keys, ownKeys, newKeys, mem_firsts, hown]
    rw [List.filter_cons_of_pos (by simpa using hown), List.filter_nil, firsts_concat, newKeys]
    simp only [hmem]

/-- A branch that sets a property makes the style of one more setting. The front is always the
number of properties that only branches set, so a new one lands behind those. -/
theorem layers_assign : g.layers.assign key text = (g.assign key text).layers := by
  have hfront : (g.assign key text).newKeys = _ := newKeys_assign
  have hkeys : (g.assign key text).keys = (g.assign key text).newKeys ++ g.ownKeys := rfl
  rw [Layers.assign, layers, StyleMap.contains_eq, keys_style]
  by_cases hmem : key ∈ g.keys
  · rw [if_pos hmem] at hfront
    have hstyle : g.style.set key text = (g.assign key text).style := by
      refine eq_style ?_ fun other => ?_
      · rw [StyleMap.keys_set, keys_style, if_pos hmem, hkeys, hfront, keys]
      · rw [StyleMap.get?_set, get?_style, last?_assign]
    rw [if_pos (decide_eq_true hmem), hstyle, layers, hfront]
  · rw [if_neg hmem] at hfront
    have hstyle : g.style.insertAt g.newKeys.length key text = (g.assign key text).style := by
      refine eq_style ?_ fun other => ?_
      · rw [StyleMap.keys_insertAt, keys_style, hkeys, hfront, keys, List.take_left,
          List.drop_left, List.append_assoc, List.singleton_append]
      · rw [StyleMap.get?_insertAt _ (by rwa [keys_style]), get?_style, last?_assign]
    rw [if_neg (by simpa using hmem), hstyle, layers, hfront, List.length_append,
      List.length_singleton]

/-- A declaration of the element makes the style of one more setting. -/
theorem style_declare (own : Settings) :
    (Given.mk own []).style.set key text = (Given.mk (own ++ [(key, text)]) []).style := by
  have hkeys (s : Settings) : (Given.mk s []).keys = firsts s.keys := rfl
  refine eq_style ?_ fun other => ?_
  · rw [StyleMap.keys_set, keys_style, hkeys, hkeys, Settings.keys_concat, firsts_concat]
    simp only [mem_firsts]
  · rw [StyleMap.get?_set, get?_style, last?, last?, List.append_nil, List.append_nil,
      Settings.last?_concat]

end

end Given

end Chtl
