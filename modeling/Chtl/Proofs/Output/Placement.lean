import Chtl.Proofs.Compile.Parts

/-!
# Placeholders on a page

A page can be merged exactly if every placeholder on it stands for a block of the unit and none is
there twice. The first placeholder that misses this is the one that the merger reports. Nothing else
makes a compilation fail without a fragment to blame.
-/

set_option autoImplicit false
set_option linter.all false

namespace Chtl.Output

/-- Placeholders that can all be resolved. -/
def Placed (assigned : List Placeholder) (tokens : List String) : Prop :=
  tokens.Nodup ∧ ∀ t ∈ tokens, ⟨t⟩ ∈ assigned

/-- The first of some placeholders that cannot be resolved, and what is wrong with it. -/
def Misplaced (assigned : List Placeholder) (tokens : List String) (e : PlacementError) : Prop :=
  ∃ front t back, tokens = front ++ t :: back ∧ Placed assigned front ∧
    (⟨t⟩ ∉ assigned ∧ e = .dangling t ∨ ⟨t⟩ ∈ assigned ∧ t ∈ front ∧ e = .duplicate t)

theorem Placed.snoc {assigned : List Placeholder} {tokens : List String} {t : String}
    (h : Placed assigned tokens) (ht : ⟨t⟩ ∈ assigned) (hnew : t ∉ tokens) :
    Placed assigned (tokens ++ [t]) := by
  refine ⟨List.nodup_append.mpr ⟨h.1, List.nodup_singleton t, ?_⟩, ?_⟩
  · intro a ha b hb
    rw [List.mem_singleton.mp hb]
    exact fun hat => hnew (hat ▸ ha)
  · intro a ha
    rcases List.mem_append.mp ha with ha | ha
    · exact h.2 a ha
    · exact List.mem_singleton.mp ha ▸ ht

theorem not_misplaced_of_placed {assigned : List Placeholder} {tokens : List String}
    (h : Placed assigned tokens) (e : PlacementError) : ¬ Misplaced assigned tokens e := by
  rintro ⟨front, t, back, rfl, -, ⟨hun, -⟩ | ⟨-, hfront, -⟩⟩
  · exact hun (h.2 t (by simp))
  · exact (List.disjoint_of_nodup_append h.1) hfront List.mem_cons_self

/-- Checking goes through the placeholders from the left: those before it have been found in place,
so it ends at the first one that is not. -/
theorem checkTokens_spec {outputs : FragmentOutputs} (front seen rest : List String)
    (hseen : ∀ t, t ∈ seen ↔ t ∈ front) (hfront : Placed (outputs.entries.map (·.1)) front) :
    (checkTokens outputs seen rest = .ok () ∧
        Placed (outputs.entries.map (·.1)) (front ++ rest)) ∨
      ∃ e, checkTokens outputs seen rest = .error e ∧
        Misplaced (outputs.entries.map (·.1)) (front ++ rest) e := by
  induction rest generalizing front seen with
  | nil => exact .inl ⟨rfl, by simpa using hfront⟩
  | cons t rest ih =>
    by_cases hknown : ⟨t⟩ ∈ outputs.entries.map (·.1)
    · have hget : (outputs.get? t).isNone = false := by
        rw [Bool.eq_false_iff]
        intro hnone
        exact FragmentOutputs.get?_eq_none_iff.mp (Option.isNone_iff_eq_none.mp hnone) hknown
      by_cases hold : t ∈ seen
      · refine .inr
          ⟨.duplicate t, by simp [checkTokens, hget, hold], front, t, rest, rfl, hfront, ?_⟩
        exact .inr ⟨hknown, (hseen t).mp hold, rfl⟩
      · have hnew : t ∉ front := fun h => hold ((hseen t).mpr h)
        have hstep : checkTokens outputs seen (t :: rest) =
            checkTokens outputs (t :: seen) rest := by
          simp [checkTokens, hget, hold]
        have hnext := ih (front ++ [t]) (t :: seen) ?_ (hfront.snoc hknown hnew)
        · rw [hstep]
          simpa using hnext
        · intro u
          rw [List.mem_cons, List.mem_append, List.mem_singleton, hseen u, or_comm]
    · have hget : outputs.get? t = none := FragmentOutputs.get?_eq_none_iff.mpr hknown
      exact .inr ⟨.dangling t, by simp [checkTokens, hget], front, t, rest, rfl, hfront,
        .inl ⟨hknown, rfl⟩⟩

def pageTokens (markup : String) : List String :=
  (tokens markup.toList).map String.ofList

/-- The page as it is laid out once its placeholders are resolved. -/
def laidOut (markup : String) (outputs : FragmentOutputs) (preludes : Preludes) (layout : Layout) :
    Bundle :=
  let body := String.ofList (mapTokens (fun _ => []) markup.toList)
  let css := joinChannel (preludes.css :: outputs.textsOf .style)
  let js := joinChannel (preludes.js :: outputs.textsOf .script)
  if layout.inlineHtml then ⟨inlinePage layout body css js, "", ""⟩ else ⟨body, css, js⟩

theorem merge_eq (markup : String) (outputs : FragmentOutputs) (preludes : Preludes)
    (layout : Layout) :
    merge markup outputs preludes layout =
      (checkTokens outputs [] (pageTokens markup)).map
        fun _ => laidOut markup outputs preludes layout := by
  unfold merge laidOut pageTokens
  dsimp only
  cases checkTokens outputs [] ((tokens markup.toList).map String.ofList) with
  | error e => rfl
  | ok u => cases layout.inlineHtml <;> rfl

theorem merge_outcome (markup : String) (outputs : FragmentOutputs) (preludes : Preludes)
    (layout : Layout) :
    (merge markup outputs preludes layout = .ok (laidOut markup outputs preludes layout) ∧
        Placed (outputs.entries.map (·.1)) (pageTokens markup)) ∨
      ∃ e, merge markup outputs preludes layout = .error e ∧
        Misplaced (outputs.entries.map (·.1)) (pageTokens markup) e := by
  have hstart : Placed (outputs.entries.map (·.1)) [] := ⟨List.nodup_nil, by simp⟩
  rw [merge_eq]
  rcases checkTokens_spec [] [] (pageTokens markup) (fun t => Iff.rfl) hstart with
    ⟨hcheck, hplaced⟩ | ⟨e, hcheck, hmis⟩
  · exact .inl ⟨by rw [hcheck]; rfl, hplaced⟩
  · exact .inr ⟨e, by rw [hcheck]; rfl, hmis⟩

theorem misplaced_of_merge {markup : String} {outputs : FragmentOutputs} {preludes : Preludes}
    {layout : Layout} {e : PlacementError} (h : merge markup outputs preludes layout = .error e) :
    Misplaced (outputs.entries.map (·.1)) (pageTokens markup) e := by
  rcases merge_outcome markup outputs preludes layout with ⟨hok, -⟩ | ⟨e', herr, hmis⟩
  · rw [hok] at h
    cases h
  · rw [herr] at h
    cases h
    exact hmis

theorem placeholders_parts {source : List Char} {extensions : Extensions} {emitRuntime : Bool}
    {scanned : Scanned} {parts : UnitOutputs} (hs : scan source = .ok scanned)
    (h : compileParts source extensions emitRuntime = .ok parts) :
    parts.fragments.entries.map (·.1) = Scanned.placeholders scanned.fragments := by
  obtain ⟨scanned', document, page, generated, scripts, bridge, lowered, hs', -, -, -, -, rfl⟩ :=
    compileParts_eq_ok_iff.mp h
  rw [hs] at hs'
  cases hs'
  exact placeholders_compiledBlocks _ _ _ _ _

/-- What a compilation fails on: its parts, or a placeholder on the page. -/
theorem compile_eq_error_iff {source : List Char} {options : Options} {extensions : Extensions}
    {e : CompileError} :
    compile source options extensions = .error e ↔
      compileParts source extensions options.emitRuntime = .error e ∨
      ∃ parts fault, compileParts source extensions options.emitRuntime = .ok parts ∧
        merge parts.markup parts.fragments parts.preludes options.layout = .error fault ∧
        e = .merge fault := by
  unfold compile
  rw [bind_eq_error_iff]
  refine or_congr_right (exists_congr fun parts => ?_)
  rw [bind_eq_error_iff, mapError_eq_error_iff]
  constructor
  · rintro ⟨hp, ⟨fault, hm, rfl⟩ | ⟨bundle, -, hb⟩⟩
    · exact ⟨fault, hp, hm, rfl⟩
    · cases hb
  · rintro ⟨fault, hp, hm, rfl⟩
    exact ⟨hp, .inl ⟨fault, hm, rfl⟩⟩

/-- A compilation never breaks a promise of its own exactly if the placeholders on the page it
generates can all be resolved. When it does, the fault is that of the first one that cannot be. -/
theorem compile_blames_source_iff (source : List Char) (options : Options)
    (extensions : Extensions) :
    ((∀ e, compile source options extensions = .error e → e.isInternal = false) ↔
      ∀ scanned parts, scan source = .ok scanned →
        compileParts source extensions options.emitRuntime = .ok parts →
        Placed (Scanned.placeholders scanned.fragments) (pageTokens parts.markup)) ∧
    ∀ e, compile source options extensions = .error e → e.isInternal = true →
      ∃ scanned parts fault, scan source = .ok scanned ∧
        compileParts source extensions options.emitRuntime = .ok parts ∧ e = .merge fault ∧
        Misplaced (Scanned.placeholders scanned.fragments) (pageTokens parts.markup) fault := by
  refine ⟨⟨fun h scanned parts hs hp => ?_, fun h e he => ?_⟩, fun e he hint => ?_⟩
  · rcases merge_outcome parts.markup parts.fragments parts.preludes options.layout with
      ⟨-, hplaced⟩ | ⟨fault, hm, -⟩
    · rwa [placeholders_parts hs hp] at hplaced
    · have he := h (.merge fault) (compile_eq_error_iff.mpr (.inr ⟨parts, fault, hp, hm, rfl⟩))
      cases he
  · rcases compile_eq_error_iff.mp he with he | ⟨parts, fault, hp, hm, rfl⟩
    · exact blamed_compileParts he
    · obtain ⟨scanned, -, -, -, -, -, -, hs, -⟩ := compileParts_eq_ok_iff.mp hp
      have hplaced := h scanned parts hs hp
      rw [← placeholders_parts hs hp] at hplaced
      exact absurd (misplaced_of_merge hm) (not_misplaced_of_placed hplaced fault)
  · rcases compile_eq_error_iff.mp he with he | ⟨parts, fault, hp, hm, rfl⟩
    · rw [blamed_compileParts he] at hint
      cases hint
    · obtain ⟨scanned, -, -, -, -, -, -, hs, -⟩ := compileParts_eq_ok_iff.mp hp
      refine ⟨scanned, parts, fault, hs, hp, rfl, ?_⟩
      rw [← placeholders_parts hs hp]
      exact misplaced_of_merge hm

/-- A block right before a name becomes part of it, and the tag is written twice. -/
theorem compile_glued_block_internal :
    Text.contains "style \x7b\x7da \x7b\x7d".toList "__CHTL_".toList = false ∧
      ∃ e, compile "style \x7b\x7da \x7b\x7d".toList {} = .error e ∧ e.isInternal = true := by
  rw [String.toList_ofList]
  decide +kernel

end Chtl.Output
