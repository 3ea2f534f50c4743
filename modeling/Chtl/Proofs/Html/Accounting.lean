import Chtl.Proofs.Html.Integrity
import Chtl.Proofs.Html.Shown
import Chtl.Proofs.Markup.Accounts
import Chtl.Proofs.Markup.Building

/-!
# What becomes of the blocks of a unit

Main statement: a block of a unit stays in its document in at most one place, outside of all
branches and with its own kind and range, or it became part of an element. The page shows the blocks
that stay, each once and in document order.
-/

set_option autoImplicit false
set_option linter.all false

namespace Chtl.Document

open Html Text

variable {source : List Char} {scanned : Scanned} {d : Document}

/-- The blocks that a unit keeps in its document and on its pages. -/
structure KeepsBlocks (scanned : Scanned) (d : Document) : Prop where
  once : (d.blocks.map (·.placeholder)).Nodup
  outside : ∀ e ∈ d.elements, ∀ c ∈ e.chains, ∀ b ∈ c.branches, b.blocks = []
  held : ∀ b ∈ d.blocks, ∃ f ∈ scanned.fragments, f.placeholder = some b.placeholder ∧
    f.kind = b.kind ∧ f.range = b.span
  consumed : ∀ q ∈ d.consumedStyles,
    (∃ f ∈ scanned.fragments, f.kind = .style ∧ f.placeholder = some q) ∧
      ∀ b ∈ d.blocks, b.placeholder ≠ q
  visited : met d.events = d.blocks.map (·.placeholder)
  written : ∀ bridge page bridge', d.generate bridge = .ok (page, bridge') →
    ∃ marks, d.marks bridge = .ok (marks, bridge') ∧ page = .ofMarks marks ∧
      marks.filterMap Mark.block? = d.blocks.map shownAs

theorem blocks_eq_flatMap (d : Document) : d.blocks = d.children.flatMap Node.blocks := by
  rw [blocks, blocksOfNodes_eq_map, List.flatMap_def]

/-- A placeholder that was assigned stands in at most one place, and in none if its block became
part of an element. -/
theorem count_blocks_le (hmark : ¬ Placeholder.mark <:+: source) (hs : scan source = .ok scanned)
    (h : ofScanned scanned = .ok d) (p : Placeholder) :
    (d.blocks.map (·.placeholder)).count p + (if p ∈ d.consumedStyles then 1 else 0) ≤ 1 := by
  obtain ⟨hnodes, -⟩ := built_of_ofScanned hs h
  obtain ⟨token⟩ := p
  have hcount : (d.blocks.map (·.placeholder)).count ⟨token⟩ =
      d.blocks.countP (·.placeholder.token = token) := by
    rw [List.count, List.countP_map]
    refine List.countP_congr fun b _ => ?_
    rcases hb : b.placeholder
    simp [hb]
  have hcopies : d.blocks.countP (·.placeholder.token = token) ≤ copiesInNodes token d.children := by
    rw [blocks_eq_flatMap]
    exact countP_flatMap_blocks_le token fun n hn => (hnodes n hn).countP_blocks_le token
  have hle := copies_le hmark hs h token
  omega

theorem marks_of_generate {bridge bridge' : Bridge} {page : Page}
    (h : d.generate bridge = .ok (page, bridge')) :
    ∃ marks, d.marks bridge = .ok (marks, bridge') ∧ page = .ofMarks marks := by
  obtain ⟨⟨marks, recorded⟩, hmarks, hpage⟩ := bind_eq_ok_iff.mp h
  cases hpage
  exact ⟨marks, hmarks, rfl⟩

/-- A unit keeps the blocks of its document apart, and its page shows them in document order. -/
theorem keepsBlocks_of_ofScanned (hmark : ¬ Placeholder.mark <:+: source)
    (hs : scan source = .ok scanned) (h : ofScanned scanned = .ok d) : d.KeepsBlocks scanned where
  once := by
    refine List.nodup_iff_count_le_one.mpr fun p => ?_
    exact Nat.le_trans (Nat.le_add_right _ _) (count_blocks_le hmark hs h p)
  outside e he := by
    obtain ⟨may, hbuilt⟩ := formed_of_ofScanned hs h he
    exact hbuilt.branch_blocks
  held b hb := by
    obtain ⟨hnodes, -⟩ := built_of_ofScanned hs h
    rw [blocks_eq_flatMap] at hb
    obtain ⟨n, hn, hb⟩ := List.mem_flatMap.mp hb
    obtain ⟨f, hf, hplaceholder, hkind, hspan⟩ := (hnodes n hn).of_mem_blocks b hb
    exact ⟨f, hf, hplaceholder, hkind.symm, (hspan hmark).symm⟩
  consumed q hq := by
    obtain ⟨-, hconsumed⟩ := built_of_ofScanned hs h
    refine ⟨hconsumed q hq, ?_⟩
    rintro b hb rfl
    have hone : 0 < (d.blocks.map (·.placeholder)).count b.placeholder :=
      List.count_pos_iff.mpr (List.mem_map_of_mem hb)
    have hle := count_blocks_le hmark hs h b.placeholder
    rw [if_pos hq] at hle
    omega
  visited := d.met_events
  written bridge page bridge' hg := by
    obtain ⟨hnodes, -⟩ := built_of_ofScanned hs h
    obtain ⟨marks, hmarks, hpage⟩ := marks_of_generate hg
    obtain ⟨final, hrun, -⟩ := run_of_marks hmarks
    refine ⟨marks, hmarks, hpage, ?_⟩
    have hshows := Shows.inTurn
      (shows_nodes d.resolver none fun n hn parent => shows_node d.resolver (hnodes n hn) parent)
    rw [hshows _ marks final hrun, blocks_eq_flatMap, List.map_flatMap, List.flatMap_def]

/-- A block of each kind that stays, one that becomes part of an element, a template that is used
twice and a branch that the page may show. -/
theorem keepsBlocks_mixed :
    ∃ source scanned d, source =
        "style \x7b \x7d [Template] @Element T \x7b i \x7b \x7d \x7d div \x7b @Element T; @Element T; ".toList ++
          "style \x7b width: 1px; \x7d if \x7b condition: \x7b\x7bx\x7d\x7d, b \x7b \x7d \x7d script \x7b \x7d \x7d".toList ∧
      scan source = .ok scanned ∧ ofScanned scanned = .ok d ∧
      d.blocks.map (·.kind) = [.style, .script] ∧ d.consumedStyles.length = 1 ∧
      d.KeepsBlocks scanned := by
  obtain ⟨source, hsource⟩ : ∃ source : List Char, source =
      "style \x7b \x7d [Template] @Element T \x7b i \x7b \x7d \x7d div \x7b @Element T; @Element T; ".toList ++
        "style \x7b width: 1px; \x7d if \x7b condition: \x7b\x7bx\x7d\x7d, b \x7b \x7d \x7d script \x7b \x7d \x7d".toList :=
    ⟨_, rfl⟩
  have hmark : ¬ Placeholder.mark <:+: source := by
    rw [hsource, String.toList_ofList, String.toList_ofList]
    decide +kernel
  have hok : ∃ scanned, scan source = .ok scanned ∧ ∃ d, ofScanned scanned = .ok d ∧
      d.blocks.map (·.kind) = [.style, .script] ∧ d.consumedStyles.length = 1 := by
    rw [hsource, String.toList_ofList, String.toList_ofList]
    decide +kernel
  obtain ⟨scanned, hs, d, hd, hkinds, hconsumed⟩ := hok
  have hkeeps := keepsBlocks_of_ofScanned hmark hs hd
  exact ⟨source, scanned, d, hsource, hs, hd, hkinds, hconsumed, hkeeps⟩

end Chtl.Document
