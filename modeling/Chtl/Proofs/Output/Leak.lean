import Chtl.Proofs.Fragment.Token
import Chtl.Proofs.Output.Channels
import Chtl.Proofs.Script.Glue

/-!
# Placeholders that stay in a bundle

Only the page is searched for placeholders. A bundle holds a placeholder of its unit exactly if one
of the other texts that go into it does, or if erasing placeholders brings one together. The blocks
of global styles are parts of the source and bring none.
-/

set_option autoImplicit false
set_option linter.all false

namespace Chtl

open Text

/-- The text of a compiled style is that of a fragment, if there is any. -/
theorem text_of_style {consumed : List Placeholder} {absent : String} {index : Nat}
    {fs : List Fragment} {scripts : List (Nat × String)} {entry : Placeholder × CompiledFragment}
    (h : entry ∈ compiledBlocks consumed absent index fs scripts) (hk : entry.2.kind = .style) :
    entry.2.text = "" ∨ ∃ f ∈ fs, entry.2.text = String.ofList (trim f.text.toList) := by
  induction fs generalizing index scripts with
  | nil => cases h
  | cons f fs ih =>
    have hlater (rest : List (Nat × String))
        (h : entry ∈ compiledBlocks consumed absent (index + 1) fs rest) :
        entry.2.text = "" ∨ ∃ g ∈ f :: fs, entry.2.text = String.ofList (trim g.text.toList) :=
      (ih h).imp_right fun ⟨g, hg, htext⟩ => ⟨g, List.mem_cons_of_mem f hg, htext⟩
    cases hp : f.placeholder with
    | none =>
      rw [compiledBlocks_markup hp] at h
      exact hlater scripts h
    | some p =>
      rw [compiledBlocks_block hp] at h
      rcases List.mem_cons.mp h with hentry | h
      · rw [hentry] at hk ⊢
        rw [compiledText_style hk]
        dsimp only
        split_ifs
        · exact .inl rfl
        · exact .inr ⟨f, List.mem_cons_self, rfl⟩
      · exact hlater _ h

namespace Output

/-- A text of the bundle holds the part. -/
def Holds (bundle : Bundle) (part : List Char) : Prop :=
  part <:+: bundle.html.toList ∨ part <:+: bundle.css.toList ∨ part <:+: bundle.js.toList

/-- The texts that get into a bundle unsearched and need not be parts of the source: hoisted rules,
what the glue quotes, and lowered scripts. -/
def unsearched (parts : UnitOutputs) (emitRuntime : Bool) : List String :=
  parts.preludes.css ::
    ((if emitRuntime then Script.glueTexts parts.facts else []) ++ parts.fragments.textsOf .script)

/-- Global styles hold no placeholder if the source holds no mark. -/
theorem not_held_styles {source : List Char} {extensions : Extensions} {emitRuntime : Bool}
    {scanned : Scanned} {parts : UnitOutputs} (hmark : ¬ Placeholder.mark <:+: source)
    (hs : scan source = .ok scanned) (h : compileParts source extensions emitRuntime = .ok parts)
    {p : Placeholder} (hp : p ∈ Scanned.placeholders scanned.fragments) :
    ¬ Held p.token.toList (parts.fragments.textsOf .style) := by
  obtain ⟨hword, hlead⟩ := Scanned.isWord_of_mem_placeholders hs hp
  obtain ⟨scanned', document, page, generated, scripts, bridge, lowered, hs', -, -, -, -, rfl⟩ :=
    compileParts_eq_ok_iff.mp h
  rw [hs] at hs'
  cases hs'
  rintro ⟨text, htext, hpart⟩
  obtain ⟨entry, hentry, rfl⟩ := List.mem_map.mp htext
  obtain ⟨hentry, hkind⟩ := List.mem_filter.mp hentry
  rcases text_of_style hentry (by simpa using hkind) with hempty | ⟨f, hf, htrim⟩
  · rw [hempty] at hpart
    exact hword.not_infix_nil hpart
  · rw [htrim, String.toList_ofList, hword.trim_iff] at hpart
    have hsource := Scanned.text_part hs hf
    exact hmark (hlead.trans (hpart.trans hsource))

theorem eq_laidOut_of_merge {markup : String} {outputs : FragmentOutputs} {preludes : Preludes}
    {layout : Layout} {bundle : Bundle} (h : merge markup outputs preludes layout = .ok bundle) :
    bundle = laidOut markup outputs preludes layout := by
  rw [merge_eq] at h
  obtain ⟨-, -, rfl⟩ := map_eq_ok_iff.mp h
  rfl

/-- A placeholder stays in a bundle exactly if it is in a text that is not searched, or comes
together on the page when others are erased. -/
theorem compile_leaks_iff {source : List Char} {options : Options} {extensions : Extensions}
    {r : Compiled} (hmark : ¬ Placeholder.mark <:+: source)
    (h : compile source options extensions = .ok r) :
    ∃ scanned parts, scan source = .ok scanned ∧
      compileParts source extensions options.emitRuntime = .ok parts ∧
      ∀ p ∈ Scanned.placeholders scanned.fragments,
        (Holds r.bundle p.token.toList ↔
          p.token.toList <:+: mapTokens (fun _ => []) parts.markup.toList ∨
            Held p.token.toList (unsearched parts options.emitRuntime)) := by
  obtain ⟨parts, hparts, h⟩ := bind_eq_ok_iff.mp h
  obtain ⟨bundle, hmerge, h⟩ := bind_eq_ok_iff.mp h
  cases h
  have hbundle := eq_laidOut_of_merge (mapError_eq_ok_iff.mp hmerge)
  obtain ⟨scanned, document, page, generated, scripts, bridge, lowered, hs, -, -, -, -, heq⟩ :=
    compileParts_eq_ok_iff.mp hparts
  refine ⟨scanned, parts, hs, hparts, fun p hp => ?_⟩
  have hword := (Scanned.isWord_of_mem_placeholders hs hp).1
  have hstyles := not_held_styles hmark hs hparts hp
  have hglue : p.token.toList <:+: parts.preludes.js.toList ↔
      Held p.token.toList (if options.emitRuntime then Script.glueTexts parts.facts else []) := by
    rw [heq]
    dsimp only
    split_ifs
    · exact hword.glue_iff bridge.facts
    · simpa using hword.not_infix_nil
  rw [Holds, hbundle, hword.laidOut_iff, held_cons, held_cons, hglue, or_iff_left hstyles,
    unsearched, held_cons, held_append]

/-- Of a global style before the page no placeholder is left. -/
theorem compile_leaks_iff_global :
    ∃ source r, source = "style \x7b p \x7b\x7d \x7d div \x7b\x7d".toList ∧
      compile source {} = .ok r ∧ r.bundle.css = "p \x7b\x7d" ∧
      ∃ scanned parts, scan source = .ok scanned ∧ compileParts source {} true = .ok parts ∧
        ∀ p ∈ Scanned.placeholders scanned.fragments,
          (Holds r.bundle p.token.toList ↔
            p.token.toList <:+: mapTokens (fun _ => []) parts.markup.toList ∨
              Held p.token.toList (unsearched parts true)) := by
  have hok : ∃ r, compile "style \x7b p \x7b\x7d \x7d div \x7b\x7d".toList {} = .ok r ∧
      r.bundle.css = "p \x7b\x7d" := by
    rw [String.toList_ofList]
    decide +kernel
  have hmark : ¬ Placeholder.mark <:+: "style \x7b p \x7b\x7d \x7d div \x7b\x7d".toList := by
    rw [String.toList_ofList]
    decide +kernel
  obtain ⟨r, hr, hcss⟩ := hok
  have hleaks := compile_leaks_iff hmark hr
  exact ⟨_, r, rfl, hr, hcss, hleaks⟩

/-- A block in a class is left in the selector of a rule that stands for the element. -/
theorem compile_leaks_class :
    ∃ source, source =
      "div \x7b class: style \x7b\x7d; style \x7b &:hover \x7b color: red; \x7d \x7d \x7d".toList ∧
      ¬ Placeholder.mark <:+: source ∧
      ∃ scanned, scan source = .ok scanned ∧ ∃ r, compile source {} = .ok r ∧
        ∃ p ∈ Scanned.placeholders scanned.fragments, p.token.toList <:+: r.bundle.css.toList := by
  refine ⟨_, rfl, ?_⟩
  rw [String.toList_ofList]
  decide +kernel

end Output

end Chtl
