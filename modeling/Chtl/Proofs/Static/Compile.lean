import Chtl.Proofs.Output.Placement
import Chtl.Proofs.Static.Generate

/-!
# Compiling a static page

The source of a forest compiles to the page of the forest and to nothing else, unless the page looks
as if it held a placeholder.
-/

set_option autoImplicit false
set_option linter.all false

namespace Chtl.Static

open Output

theorem readScripts_blockless {extensions : Extensions} {bridge : Bridge} {index : Nat}
    {fs : List Fragment} (h : ∀ f ∈ fs, f.kind ≠ .script) :
    readScripts extensions bridge index fs = .ok ([], bridge) := by
  induction fs generalizing index with
  | nil => rfl
  | cons f fs ih =>
    rw [readScripts, if_neg (h f List.mem_cons_self)]
    exact ih fun g hg => h g (List.mem_cons_of_mem f hg)

theorem compiledBlocks_blockless {consumed : List Placeholder} {absent : String} {index : Nat}
    {fs : List Fragment} (h : ∀ f ∈ fs, f.placeholder = none) :
    compiledBlocks consumed absent index fs [] = [] := by
  induction fs generalizing index with
  | nil => rfl
  | cons f fs ih =>
    rw [compiledBlocks_markup (h f List.mem_cons_self)]
    exact ih fun g hg => h g (List.mem_cons_of_mem f hg)

theorem mapTokens_eq_self {cs : List Char} (h : tokens cs = []) (image : List Char → List Char) :
    mapTokens image cs = cs := by
  unfold tokens at h
  unfold mapTokens
  conv_rhs => rw [← flatMap_text_segments cs]
  rw [List.filterMap_eq_nil_iff] at h
  refine List.flatMap_congr fun segment hsegment => ?_
  cases segment with
  | plain c => rfl
  | token t => cases h _ hsegment

theorem merge_plain {markup : String} (h : tokens markup.toList = []) :
    merge markup {} {} {} = .ok ⟨markup, "", ""⟩ := by
  rw [merge_eq, pageTokens, h, laidOut, mapTokens_eq_self h, String.ofList_toList]
  rfl

/-- The source of a forest compiles to its page. -/
theorem compile_source (f : Forest) (h : tokens f.html.toList = []) :
    compile f.source {} = .ok ⟨⟨f.html, "", ""⟩, {}⟩ := by
  obtain ⟨scanned, hscan, hmarkup, hblocks⟩ := scan_source f
  obtain ⟨document, hdocument, hrepresents⟩ := ofScanned_source hmarkup hblocks
  have hscripts (g : Fragment) (hg : g ∈ scanned.fragments) : g.kind ≠ .script := by
    rw [(Scanned.kind_eq_markup_iff hscan hg).mpr (hblocks g hg)]
    decide
  have hparts : compileParts f.source {} true = .ok ⟨f.html, {}, {}, {}⟩ :=
    compileParts_eq_ok_iff.mpr ⟨scanned, document, ⟨f.html, ""⟩, {}, [], {}, [], hscan, hdocument,
      generate_represents hrepresents, readScripts_blockless hscripts, rfl,
      by rw [compiledBlocks_blockless hblocks]; rfl⟩
  have hmerge : merge f.html {} {} ({} : Options).layout = .ok ⟨f.html, "", ""⟩ := merge_plain h
  exact bind_eq_ok_iff.mpr ⟨_, hparts, bind_eq_ok_iff.mpr ⟨_, mapError_eq_ok_iff.mpr hmerge, rfl⟩⟩

/-- Quotes, braces, a comment and a keyword are nothing but text in a literal. -/
theorem compile_source_hidden :
    ∃ f : Forest,
      f.source =
        "p \x7b a: \"\\\"\\\\\"; text \x7b \"style \x7b\x7b //\" \x7d br \x7b \x7d \x7d".toList ∧
      f.html = "<p a=\"&quot;\\\">style \x7b\x7b //<br></p>" ∧
      compile f.source {} = .ok ⟨⟨f.html, "", ""⟩, {}⟩ := by
  refine ⟨.element ⟨"p", by decide, by decide⟩ ⟨[("a", "\"\\")], by decide, by decide, by decide⟩
    (.text "style \x7b\x7b //" (.element ⟨"br", by decide, by decide⟩
      ⟨[], by decide, by decide, by decide⟩ .nil .nil)) .nil, ?_, ?_, compile_source _ ?_⟩
  · decide +kernel
  · decide +kernel
  · decide +kernel

end Chtl.Static
