import Chtl.Compile.Basic
import Chtl.Proofs.Fragment.Tiling

/-!
# The parts of a unit

Every block of a scanned source is entered among the outputs once, in the order of the source and
under its own placeholder. Placeholders of a unit are distinct, so entering them
cannot fail, and a unit that does not compile has a fragment to blame.
-/

set_option autoImplicit false
set_option linter.all false

namespace Chtl

namespace FragmentOutputs

theorem get?_eq_none_iff {o : FragmentOutputs} {token : String} :
    o.get? token = none ↔ ⟨token⟩ ∉ o.entries.map (·.1) := by
  have hkey (p : Placeholder) : (p.token == token) = true ↔ p = ⟨token⟩ := by
    cases p
    simp
  simp only [get?, Option.map_eq_none_iff, List.find?_eq_none, hkey, List.mem_map, not_exists,
    not_and]

theorem insert_of_fresh {o : FragmentOutputs} {p : Placeholder} (f : CompiledFragment)
    (h : p ∉ o.entries.map (·.1)) : o.insert p f = .ok ⟨o.entries ++ [(p, f)]⟩ := by
  unfold insert
  rw [get?_eq_none_iff.mpr h]

theorem foldlM_insert {entries : List (Placeholder × CompiledFragment)} {o : FragmentOutputs}
    (h : ((o.entries ++ entries).map (·.1)).Nodup) :
    entries.foldlM (fun outputs (p, f) => outputs.insert p f) o =
      (.ok ⟨o.entries ++ entries⟩ : Except PlacementError FragmentOutputs) := by
  induction entries generalizing o with
  | nil => simp [pure, Except.pure]
  | cons entry rest ih =>
    obtain ⟨p, f⟩ := entry
    have hfresh : p ∉ o.entries.map (·.1) := by
      intro hmem
      rw [List.map_append, List.map_cons] at h
      exact (List.disjoint_of_nodup_append h) hmem List.mem_cons_self
    have hrest := ih (o := ⟨o.entries ++ [(p, f)]⟩) (by simpa using h)
    rw [List.foldlM_cons]
    change o.insert p f >>= _ = _
    rw [insert_of_fresh f hfresh]
    simpa [bind, Except.bind] using hrest

/-- Entries under distinct placeholders are all taken, in their order. -/
theorem ofEntries_of_nodup {entries : List (Placeholder × CompiledFragment)}
    (h : (entries.map (·.1)).Nodup) : ofEntries entries = .ok ⟨entries⟩ := by
  rw [ofEntries, foldlM_insert (by simpa using h)]
  rfl

end FragmentOutputs

theorem compiledText_style {f : Fragment} (h : f.kind = .style) (p : Placeholder) (index : Nat)
    (consumed : List Placeholder) (absent : String) (scripts : List (Nat × String)) :
    f.compiledText p index consumed absent scripts =
      (if p ∈ consumed then "" else String.ofList (Text.trim f.text.toList), scripts) := by
  simp only [Fragment.compiledText, h]

section

variable {consumed : List Placeholder} {absent : String} {index : Nat} {f : Fragment}
  {fs : List Fragment} {scripts : List (Nat × String)}

theorem compiledBlocks_markup (h : f.placeholder = none) :
    compiledBlocks consumed absent index (f :: fs) scripts =
      compiledBlocks consumed absent (index + 1) fs scripts := by
  rw [compiledBlocks, h]

theorem compiledBlocks_block {p : Placeholder} (h : f.placeholder = some p) :
    compiledBlocks consumed absent index (f :: fs) scripts =
      (p, ⟨f.kind, (f.compiledText p index consumed absent scripts).1⟩) ::
        compiledBlocks consumed absent (index + 1) fs
          (f.compiledText p index consumed absent scripts).2 := by
  rw [compiledBlocks, h]

end

theorem placeholders_compiledBlocks (consumed : List Placeholder) (absent : String) (index : Nat)
    (fs : List Fragment) (scripts : List (Nat × String)) :
    (compiledBlocks consumed absent index fs scripts).map (·.1) = Scanned.placeholders fs := by
  induction fs generalizing index scripts with
  | nil => rfl
  | cons f fs ih =>
    cases hp : f.placeholder with
    | none => simp [compiledBlocks_markup hp, Scanned.placeholders, hp, ih]
    | some p => simp [compiledBlocks_block hp, Scanned.placeholders, hp, ih]

theorem blamed_readScript {f : Fragment} {extensions : Extensions} {bridge : Bridge}
    {e : CompileError} (h : f.readScript extensions bridge = .error e) : e.isInternal = false := by
  unfold Fragment.readScript at h
  rcases bind_eq_error_iff.mp h with h | ⟨text, -, h⟩
  · obtain ⟨cause, -, rfl⟩ := mapError_eq_error_iff.mp h
    rfl
  · rcases bind_eq_error_iff.mp h with h | ⟨⟨items, declared⟩, -, h⟩
    · obtain ⟨cause, -, rfl⟩ := mapError_eq_error_iff.mp h
      rfl
    · cases h

theorem blamed_readScripts {extensions : Extensions} {bridge : Bridge} {index : Nat}
    {fs : List Fragment} {e : CompileError}
    (h : readScripts extensions bridge index fs = .error e) : e.isInternal = false := by
  induction fs generalizing bridge index with
  | nil => cases h
  | cons f fs ih =>
    rw [readScripts] at h
    split_ifs at h
    · rcases bind_eq_error_iff.mp h with h | ⟨own, -, h⟩
      · exact blamed_readScript h
      · rcases bind_eq_error_iff.mp h with h | ⟨more, -, h⟩
        · exact ih h
        · cases h
    · exact ih h

theorem blamed_lowerScripts {facts : Facts} {scripts : List ReadScript} {e : CompileError}
    (h : lowerScripts facts scripts = .error e) : e.isInternal = false := by
  induction scripts with
  | nil => cases h
  | cons s scripts ih =>
    rcases bind_eq_error_iff.mp h with h | ⟨code, -, h⟩
    · obtain ⟨cause, -, rfl⟩ := mapError_eq_error_iff.mp h
      rfl
    · rcases bind_eq_error_iff.mp h with h | ⟨rest, -, h⟩
      · exact ih h
      · cases h

theorem blamed_blame (s : Scanned) (cause : FragmentFault) :
    (s.blame cause).isInternal = false := by
  unfold Scanned.blame
  split <;> rfl

theorem nodup_compiledBlocks {source : List Char} {s : Scanned} (h : scan source = .ok s)
    (consumed : List Placeholder) (absent : String) (scripts : List (Nat × String)) :
    ((compiledBlocks consumed absent 0 s.fragments scripts).map (·.1)).Nodup := by
  rw [placeholders_compiledBlocks]
  exact Scanned.nodup_placeholders h

/-- The stages that a unit goes through when its parts compile. -/
theorem compileParts_eq_ok_iff {source : List Char} {extensions : Extensions} {emitRuntime : Bool}
    {parts : UnitOutputs} :
    compileParts source extensions emitRuntime = .ok parts ↔
      ∃ scanned document page generated scripts bridge lowered,
        scan source = .ok scanned ∧ Document.ofScanned scanned = .ok document ∧
        document.generate {} = .ok (page, generated) ∧
        readScripts extensions generated 0 scanned.fragments = .ok (scripts, bridge) ∧
        lowerScripts bridge.facts scripts = .ok lowered ∧
        parts = ⟨page.html,
          ⟨compiledBlocks document.consumedStyles "" 0 scanned.fragments lowered⟩,
          ⟨page.css, if emitRuntime then Script.glue bridge.facts else ""⟩, bridge.facts⟩ := by
  unfold compileParts
  constructor
  · intro h
    obtain ⟨scanned, hs, h⟩ := bind_eq_ok_iff.mp h
    obtain ⟨document, hd, h⟩ := bind_eq_ok_iff.mp h
    obtain ⟨⟨page, generated⟩, hp, h⟩ := bind_eq_ok_iff.mp h
    obtain ⟨⟨scripts, bridge⟩, hr, h⟩ := bind_eq_ok_iff.mp h
    obtain ⟨lowered, hl, h⟩ := bind_eq_ok_iff.mp h
    obtain ⟨fragments, hf, h⟩ := bind_eq_ok_iff.mp h
    have hscan := mapError_eq_ok_iff.mp hs
    rw [FragmentOutputs.ofEntries_of_nodup (nodup_compiledBlocks hscan _ _ _)] at hf
    cases hf
    cases h
    exact ⟨scanned, document, page, generated, scripts, bridge, lowered, hscan,
      mapError_eq_ok_iff.mp hd, mapError_eq_ok_iff.mp hp, hr, hl, rfl⟩
  · rintro ⟨scanned, document, page, generated, scripts, bridge, lowered, hs, hd, hp, hr, hl, rfl⟩
    simp [hs, hd, hp, hr, hl, FragmentOutputs.ofEntries_of_nodup (nodup_compiledBlocks hs _ _ _),
      bind, Except.bind]

/-- A unit whose parts do not compile has its source to blame. -/
theorem blamed_compileParts {source : List Char} {extensions : Extensions} {emitRuntime : Bool}
    {e : CompileError} (h : compileParts source extensions emitRuntime = .error e) :
    e.isInternal = false := by
  unfold compileParts at h
  rcases bind_eq_error_iff.mp h with h | ⟨scanned, hs, h⟩
  · obtain ⟨cause, -, rfl⟩ := mapError_eq_error_iff.mp h
    rfl
  rcases bind_eq_error_iff.mp h with h | ⟨document, hd, h⟩
  · obtain ⟨cause, -, rfl⟩ := mapError_eq_error_iff.mp h
    exact blamed_blame scanned _
  rcases bind_eq_error_iff.mp h with h | ⟨⟨page, generated⟩, hp, h⟩
  · obtain ⟨cause, -, rfl⟩ := mapError_eq_error_iff.mp h
    exact blamed_blame scanned _
  rcases bind_eq_error_iff.mp h with h | ⟨⟨scripts, bridge⟩, hr, h⟩
  · exact blamed_readScripts h
  rcases bind_eq_error_iff.mp h with h | ⟨lowered, hl, h⟩
  · exact blamed_lowerScripts h
  rcases bind_eq_error_iff.mp h with h | ⟨fragments, -, h⟩
  · have hn := nodup_compiledBlocks (mapError_eq_ok_iff.mp hs) document.consumedStyles "" lowered
    rw [FragmentOutputs.ofEntries_of_nodup hn] at h
    cases h
  · cases h

end Chtl
