import Chtl.Proofs.Compile.Parts
import Mathlib.Data.List.Forall2

/-!
# What every block is compiled to

Scripts are read in one round, lowered in another, and their code is put to the blocks in a third,
by places. The rounds stay in step over any mix of blocks: when the third comes to a script, its own
code is the next one, so every block gets the text that it alone gives.
-/

set_option autoImplicit false
set_option linter.all false

namespace Chtl

open Text

/-- The output of a block by itself: nothing or its own text for a style, for a script the code that
its own text is lowered to. -/
def Fragment.CompilesTo (extensions : Extensions) (facts : Facts) (consumed : List Placeholder)
    (f : Fragment) (output : Placeholder × CompiledFragment) : Prop :=
  f.placeholder = some output.1 ∧ output.2.kind = f.kind ∧
    match f.kind with
    | .style =>
      output.2.text = if output.1 ∈ consumed then "" else String.ofList (trim f.text.toList)
    | .script =>
      ∃ text items declared code,
        extensions.apply f.text.toList f.bodyRange.start = .ok text ∧
        Script.parse text f.bodyRange.start = .ok (items, declared) ∧
        Script.lower items facts (some output.1.token) = .ok code ∧
        output.2.text = String.ofList (trim code.toList)
    | .markup => False

variable {extensions : Extensions} {facts : Facts} {consumed : List Placeholder}

/-- A block has one output. -/
theorem Fragment.CompilesTo.unique :
    Relator.RightUnique (Fragment.CompilesTo extensions facts consumed) := by
  rintro f ⟨p, kind, text⟩ ⟨p', kind', text'⟩ ⟨hp, hk, h⟩ ⟨hp', hk', h'⟩
  rw [hp] at hp'
  cases hp'
  dsimp only at hk hk' h h'
  subst hk hk'
  cases hkind : f.kind with
  | markup =>
    rw [hkind] at h
    exact h.elim
  | style =>
    rw [hkind] at h h'
    rw [h, h']
  | script =>
    rw [hkind] at h h'
    obtain ⟨expanded, items, declared, code, hexpand, hparse, hlower, rfl⟩ := h
    obtain ⟨expanded', items', declared', code', hexpand', hparse', hlower', rfl⟩ := h'
    rw [hexpand] at hexpand'
    cases hexpand'
    rw [hparse] at hparse'
    cases hparse'
    rw [hlower] at hlower'
    cases hlower'
    rfl

theorem readScript_eq_ok {f : Fragment} {bridge bridge' : Bridge} {items : List Script.Item}
    (h : f.readScript extensions bridge = .ok (items, bridge')) :
    ∃ text declared, extensions.apply f.text.toList f.bodyRange.start = .ok text ∧
      Script.parse text f.bodyRange.start = .ok (items, declared) := by
  obtain ⟨text, hexpand, h⟩ := bind_eq_ok_iff.mp h
  obtain ⟨⟨items', declared⟩, hparse, h⟩ := bind_eq_ok_iff.mp h
  cases h
  exact ⟨text, declared, mapError_eq_ok_iff.mp hexpand, mapError_eq_ok_iff.mp hparse⟩

theorem compiledText_script {f : Fragment} (h : f.kind = .script) (p : Placeholder) (index : Nat)
    (absent code : String) (scripts : List (Nat × String)) :
    f.compiledText p index consumed absent ((index, code) :: scripts) =
      (String.ofList (trim code.toList), scripts) := by
  simp [Fragment.compiledText, h, takeScript]

/-- The rounds over the same fragments, from the same place on, put every block to its own output. -/
theorem compilesTo_compiledBlocks (absent : String) {bridge bridge' : Bridge} {index : Nat}
    {fs : List Fragment} {scripts : List ReadScript} {lowered : List (Nat × String)}
    (hfs : ∀ f ∈ fs, f.kind = .markup ↔ f.placeholder = none)
    (hread : readScripts extensions bridge index fs = .ok (scripts, bridge'))
    (hlower : lowerScripts facts scripts = .ok lowered) :
    List.Forall₂ (Fragment.CompilesTo extensions facts consumed) (Scanned.blocks fs)
      (compiledBlocks consumed absent index fs lowered) := by
  induction fs generalizing bridge index scripts lowered with
  | nil => exact .nil
  | cons f fs ih =>
    have hrest : ∀ g ∈ fs, g.kind = .markup ↔ g.placeholder = none :=
      fun g hg => hfs g (List.mem_cons_of_mem f hg)
    have hf := hfs f List.mem_cons_self
    rw [readScripts] at hread
    cases hp : f.placeholder with
    | none =>
      have hk : f.kind = .markup := hf.mpr hp
      rw [if_neg (by simp [hk])] at hread
      rw [compiledBlocks_markup hp, Scanned.blocks, List.filter_cons_of_neg (by simp [hk])]
      exact ih hrest hread hlower
    | some p =>
      have hk : f.kind ≠ .markup := by simp [hf, hp]
      rw [compiledBlocks_block hp, Scanned.blocks, List.filter_cons_of_pos (by simpa using hk)]
      by_cases hscript : f.kind = .script
      · -- The script was read first of those that are left, so its code is first as well.
        rw [if_pos hscript] at hread
        obtain ⟨⟨items, bridge₁⟩, hown, hread⟩ := bind_eq_ok_iff.mp hread
        obtain ⟨⟨more, bridge₂⟩, hmore, hread⟩ := bind_eq_ok_iff.mp hread
        cases hread
        obtain ⟨code, hcode, hlower⟩ := bind_eq_ok_iff.mp hlower
        obtain ⟨codes, hcodes, hlower⟩ := bind_eq_ok_iff.mp hlower
        cases hlower
        obtain ⟨text, declared, hexpand, hparse⟩ := readScript_eq_ok hown
        have hcode := mapError_eq_ok_iff.mp hcode
        rw [hp] at hcode
        rw [compiledText_script hscript]
        refine .cons ⟨hp, rfl, ?_⟩ (ih hrest hmore hcodes)
        rw [hscript]
        exact ⟨text, items, declared, code, hexpand, hparse, hcode, rfl⟩
      · have hstyle : f.kind = .style := by
          cases hkind : f.kind <;> simp_all
        rw [if_neg hscript] at hread
        rw [compiledText_style hstyle]
        refine .cons ⟨hp, rfl, ?_⟩ (ih hrest hread hlower)
        rw [hstyle]

/-- When the parts of a unit compile, the outputs are those of its blocks one by one, in their
order, with the facts that all scripts together leave; it does not matter what would stand for a
script without code. No unit fails for its outputs. -/
theorem compileParts_outputs (source : List Char) (extensions : Extensions) (emitRuntime : Bool) :
    (∀ parts, compileParts source extensions emitRuntime = .ok parts →
      ∃ scanned document page generated scripts bridge lowered,
        scan source = .ok scanned ∧ Document.ofScanned scanned = .ok document ∧
        document.generate {} = .ok (page, generated) ∧
        readScripts extensions generated 0 scanned.fragments = .ok (scripts, bridge) ∧
        parts.facts = bridge.facts ∧ lowerScripts parts.facts scripts = .ok lowered ∧
        List.Forall₂ (Fragment.CompilesTo extensions parts.facts document.consumedStyles)
          (Scanned.blocks scanned.fragments) parts.fragments.entries ∧
        (parts.fragments.entries.map (·.1)).Nodup ∧
        ∀ absent, compiledBlocks document.consumedStyles absent 0 scanned.fragments lowered =
          parts.fragments.entries) ∧
    ∀ fault, compileParts source extensions emitRuntime ≠ .error (.output fault) := by
  constructor
  · intro parts h
    obtain ⟨scanned, document, page, generated, scripts, bridge, lowered, hs, hd, hp, hr, hl, rfl⟩ :=
      compileParts_eq_ok_iff.mp h
    have hkinds (f : Fragment) (hf : f ∈ scanned.fragments) :
        f.kind = .markup ↔ f.placeholder = none := Scanned.kind_eq_markup_iff hs hf
    have hall (absent : String) : List.Forall₂
        (Fragment.CompilesTo extensions bridge.facts document.consumedStyles)
        (Scanned.blocks scanned.fragments)
        (compiledBlocks document.consumedStyles absent 0 scanned.fragments lowered) :=
      compilesTo_compiledBlocks absent hkinds hr hl
    exact ⟨scanned, document, page, generated, scripts, bridge, lowered, hs, hd, hp, hr, rfl, hl,
      hall "", nodup_compiledBlocks hs _ _ _,
      fun absent => Fragment.CompilesTo.unique.forall₂ (hall absent) (hall "")⟩
  · intro fault h
    cases blamed_compileParts h

/-- Scripts around a global style and one that becomes part of an element. -/
theorem compileParts_outputs_mixed :
    ∃ source extensions parts,
      source = ("script \x7b now() \x7d style \x7b p \x7b\x7d \x7d " ++
        "p \x7b style \x7b color: red; \x7d script \x7b b() \x7d \x7d").toList ∧
      compileParts source extensions true = .ok parts ∧
      parts.fragments.entries.map (·.2) =
        [⟨.script, "clock"⟩, ⟨.style, "p \x7b\x7d"⟩, ⟨.style, ""⟩, ⟨.script, "b()"⟩] ∧
      ∃ scanned document, scan source = .ok scanned ∧ Document.ofScanned scanned = .ok document ∧
        List.Forall₂ (Fragment.CompilesTo extensions parts.facts document.consumedStyles)
          (Scanned.blocks scanned.fragments) parts.fragments.entries := by
  have hok : ∃ parts, compileParts ("script \x7b now() \x7d style \x7b p \x7b\x7d \x7d " ++
        "p \x7b style \x7b color: red; \x7d script \x7b b() \x7d \x7d").toList
        ⟨[⟨"now", fun _ => .ok "clock"⟩]⟩ true = .ok parts ∧
      parts.fragments.entries.map (·.2) =
        [⟨.script, "clock"⟩, ⟨.style, "p \x7b\x7d"⟩, ⟨.style, ""⟩, ⟨.script, "b()"⟩] := by
    rw [String.toList_append, String.toList_ofList, String.toList_ofList]
    decide +kernel
  obtain ⟨parts, hparts, hentries⟩ := hok
  obtain ⟨scanned, document, -, -, -, -, -, hs, hd, -, -, -, -, hall, -⟩ :=
    (compileParts_outputs _ _ _).1 parts hparts
  exact ⟨_, _, parts, rfl, hparts, hentries, scanned, document, hs, hd, hall⟩

end Chtl
