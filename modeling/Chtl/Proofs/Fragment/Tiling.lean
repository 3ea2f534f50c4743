import Chtl.Fragment.Scan
import Chtl.Proofs.Fragment.Cut
import Mathlib.Data.List.Chain
import Mathlib.Data.List.Forall2
import Mathlib.Data.List.Nodup

/-!
# Fragments tile their source

The fragments of a scanned source cover it from end to end, each at its own place, and the blocks
among them carry placeholders that no other block of the unit has. Offsets count bytes, so a text is
said to take up a span only if the span begins and ends between characters.
-/

set_option autoImplicit false
set_option linter.all false

namespace Chtl

open Text

/-- The text is what the source holds between the ends of the span. -/
def Occupies (source text : List Char) (span : Span) : Prop :=
  ∃ before after, source = before ++ (text ++ after) ∧
    span.start = size before ∧ span.stop = size before + size text

/-- A part of a text that takes up a span, at its own distance from the start. -/
theorem Occupies.part {source lead text rest : List Char} {span : Span}
    (h : Occupies source (lead ++ (text ++ rest)) span) :
    Occupies source text ⟨span.start + size lead, span.start + size lead + size text⟩ := by
  obtain ⟨before, after, hs, hstart, -⟩ := h
  refine ⟨before ++ lead, rest ++ after, ?_, ?_, ?_⟩
  · simp [hs]
  · simp [hstart]
  · simp [hstart]

theorem size_pos {cs : List Char} (h : cs ≠ []) : 0 < size cs := by
  cases cs with
  | nil => exact absurd rfl h
  | cons c cs =>
    have hc := c.utf8Size_pos
    rw [size_cons]
    omega

namespace Placeholder

theorem toList_ofBlock (kind : FragmentKind) (nonce : String) (ordinal : Nat) :
    (ofBlock kind nonce ordinal).token.toList =
      "__CHTL_".toList ++ (kind.tokenTag.toList ++ ("_".toList ++ (nonce.toList ++
        ("_".toList ++ ((toString ordinal).toList ++ "__".toList))))) := by
  unfold ofBlock
  simp only [String.toList_append, List.append_assoc]

theorem ofBlock_injective {j k : FragmentKind} {nonce : String} {m n : Nat}
    (hj : j ≠ .markup) (hk : k ≠ .markup) (h : ofBlock j nonce m = ofBlock k nonce n) : m = n := by
  have ht := congrArg (fun p => p.token.toList) h
  simp only [toList_ofBlock] at ht
  have hd : (toString m).toList = (toString n).toList := by
    cases j <;> cases k <;> simp_all [FragmentKind.tokenTag]
  exact toString_injective (String.toList_inj.mp hd)

end Placeholder

/-- Fragments that follow one another from `start` to `stop`, none of them empty. -/
def Consecutive : (start stop : Nat) → List Fragment → Prop
  | start, stop, [] => start = stop
  | start, stop, f :: fs =>
    f.range.start = start ∧ start < f.range.stop ∧ Consecutive f.range.stop stop fs

namespace Fragment

/-- Markup is its own body and has no placeholder. -/
def MarkupAt (source : List Char) (f : Fragment) : Prop :=
  f.bodyRange = f.range ∧ Occupies source f.text.toList f.range ∧ f.placeholder = none

/-- A block is its opening, its text and a brace. The text begins behind the opening and ends one
byte before the block does. -/
def BlockAt (source : List Char) (f : Fragment) : Prop :=
  ∃ opening, Piece.Opens f.kind opening ∧
    Occupies source (opening ++ (f.text.toList ++ ['}'])) f.range ∧
    f.bodyRange.start = f.range.start + size opening ∧ f.bodyRange.stop + 1 = f.range.stop ∧
    Occupies source f.text.toList f.bodyRange

/-- What a fragment leaves in the markup: a block its placeholder, markup itself. -/
def Leaves (f : Fragment) (image : List Char) : Prop :=
  if f.kind = .markup then image = f.text.toList
  else ∃ p, f.placeholder = some p ∧ image = p.token.toList

end Fragment

namespace Scanned

/-- The blocks of a unit in their order. -/
def blocks (fragments : List Fragment) : List Fragment :=
  fragments.filter fun f => f.kind ≠ .markup

theorem kind_ne_markup {kind : FragmentKind} {opening : List Char} (h : Piece.Opens kind opening) :
    kind ≠ .markup := by
  rintro rfl
  obtain ⟨word, blanks, hk, -⟩ := h
  cases hk

variable (nonce : String) (ordinal offset : Nat) {pieces : List Piece}

theorem consecutive_assemble (h : ∀ p ∈ pieces, p.WellFormed) :
    Consecutive offset (offset + size (pieces.flatMap Piece.source))
      (assemble nonce ordinal offset pieces) := by
  induction pieces generalizing ordinal offset with
  | nil => simp [assemble, Consecutive]
  | cons p ps ih =>
    have hps : ∀ q ∈ ps, q.WellFormed := fun q hq => h q (List.mem_cons_of_mem _ hq)
    cases p with
    | markup text =>
      have ht : 0 < size text := size_pos (h _ List.mem_cons_self)
      have hr := ih ordinal (offset + size text) hps
      refine ⟨rfl, by simpa using ht, ?_⟩
      simpa [Piece.source, Nat.add_assoc] using hr
    | block kind opening body =>
      have hr := ih (ordinal + 1) (offset + size opening + size body + 1) hps
      refine ⟨rfl, by simp; omega, ?_⟩
      simpa [Piece.source, Nat.add_assoc, show '}'.utf8Size = 1 from rfl] using hr

theorem map_isMarkup_assemble (h : ∀ p ∈ pieces, p.WellFormed) :
    (assemble nonce ordinal offset pieces).map (fun f => decide (f.kind = .markup)) =
      pieces.map Piece.isMarkup := by
  induction pieces generalizing ordinal offset with
  | nil => rfl
  | cons p ps ih =>
    have hps : ∀ q ∈ ps, q.WellFormed := fun q hq => h q (List.mem_cons_of_mem _ hq)
    cases p with
    | markup text => simp [assemble, Piece.isMarkup, ih _ _ hps]
    | block kind opening body =>
      have hk : kind ≠ .markup := kind_ne_markup (h _ List.mem_cons_self)
      simp [assemble, Piece.isMarkup, hk, ih _ _ hps]

theorem markup_apart_assemble (h : ∀ p ∈ pieces, p.WellFormed) (ha : Piece.Alternate pieces) :
    (assemble nonce ordinal offset pieces).IsChain
      fun f g => ¬ (f.kind = .markup ∧ g.kind = .markup) := by
  have hc : (pieces.map Piece.isMarkup).IsChain fun a b => ¬ (a = true ∧ b = true) :=
    (List.isChain_map _).mpr ha
  rw [← map_isMarkup_assemble nonce ordinal offset h, List.isChain_map] at hc
  simpa using hc

/-- Every fragment stands where it says. -/
theorem at_of_mem_assemble {source : List Char} (before : List Char)
    (h : ∀ p ∈ pieces, p.WellFormed)
    (hs : source = before ++ pieces.flatMap Piece.source) (ho : offset = size before)
    {f : Fragment} (hf : f ∈ assemble nonce ordinal offset pieces) :
    if f.kind = .markup then f.MarkupAt source else f.BlockAt source := by
  induction pieces generalizing ordinal offset before with
  | nil => simp [assemble] at hf
  | cons p ps ih =>
    have hps : ∀ q ∈ ps, q.WellFormed := fun q hq => h q (List.mem_cons_of_mem _ hq)
    cases p with
    | markup text =>
      rcases List.mem_cons.mp hf with rfl | hf
      · refine (if_pos rfl).mpr ⟨rfl, ⟨before, ps.flatMap Piece.source, ?_, ho, ?_⟩, rfl⟩
        · simpa [Piece.source] using hs
        · simp [ho]
      · refine ih ordinal (offset + size text) (before ++ text) hps ?_ ?_ hf
        · simpa [Piece.source] using hs
        · simp [ho]
    | block kind opening body =>
      have hopens : Piece.Opens kind opening := h _ List.mem_cons_self
      rcases List.mem_cons.mp hf with rfl | hf
      · refine (if_neg (kind_ne_markup hopens)).mpr ?_
        have hall : Occupies source (opening ++ (body ++ ['}']))
            ⟨offset, offset + size opening + size body + 1⟩ := by
          refine ⟨before, ps.flatMap Piece.source, ?_, ho, ?_⟩
          · simpa [Piece.source] using hs
          · simp [ho, show '}'.utf8Size = 1 from rfl]
            omega
        refine ⟨opening, hopens, ?_, rfl, rfl, ?_⟩
        · simpa using hall
        · simpa using hall.part
      · refine ih (ordinal + 1) (offset + size opening + size body + 1)
          (before ++ (opening ++ (body ++ ['}']))) hps ?_ ?_ hf
        · simpa [Piece.source] using hs
        · simp [ho, show '}'.utf8Size = 1 from rfl]
          omega

/-- The ordinals of blocks count on from the first one. -/
theorem placeholder_blocks_assemble (h : ∀ p ∈ pieces, p.WellFormed) {n : Nat} {f : Fragment}
    (hf : (blocks (assemble nonce ordinal offset pieces))[n]? = some f) :
    f.placeholder = some (.ofBlock f.kind nonce (ordinal + n)) := by
  induction pieces generalizing ordinal offset n with
  | nil => simp [assemble, blocks] at hf
  | cons p ps ih =>
    have hps : ∀ q ∈ ps, q.WellFormed := fun q hq => h q (List.mem_cons_of_mem _ hq)
    cases p with
    | markup text =>
      exact ih ordinal (offset + size text) hps (by simpa [assemble, blocks] using hf)
    | block kind opening body =>
      have hk : kind ≠ .markup := kind_ne_markup (h _ List.mem_cons_self)
      cases n with
      | zero =>
        obtain rfl := by simpa [assemble, blocks, hk] using hf
        rfl
      | succ n =>
        rw [show ordinal + (n + 1) = ordinal + 1 + n by omega]
        exact ih (ordinal + 1) (offset + size opening + size body + 1) hps
          (by simpa [assemble, blocks, hk] using hf)

/-- The placeholders of a list of fragments in their order. -/
def placeholders (fragments : List Fragment) : List Placeholder :=
  fragments.filterMap (·.placeholder)

theorem ofBlock_of_mem_placeholders (h : ∀ p ∈ pieces, p.WellFormed) {p : Placeholder}
    (hp : p ∈ placeholders (assemble nonce ordinal offset pieces)) :
    ∃ kind m, kind ≠ .markup ∧ ordinal ≤ m ∧ p = .ofBlock kind nonce m := by
  induction pieces generalizing ordinal offset with
  | nil => simp [assemble, placeholders] at hp
  | cons q qs ih =>
    have hqs : ∀ r ∈ qs, r.WellFormed := fun r hr => h r (List.mem_cons_of_mem _ hr)
    cases q with
    | markup text =>
      exact ih ordinal (offset + size text) hqs (by simpa [assemble, placeholders] using hp)
    | block kind opening body =>
      have hk : kind ≠ .markup := kind_ne_markup (h _ List.mem_cons_self)
      rcases List.mem_cons.mp hp with rfl | hp
      · exact ⟨kind, ordinal, hk, Nat.le_refl _, rfl⟩
      · obtain ⟨k, m, hk, hm, rfl⟩ := ih (ordinal + 1) _ hqs hp
        exact ⟨k, m, hk, by omega, rfl⟩

theorem nodup_placeholders_assemble (h : ∀ p ∈ pieces, p.WellFormed) :
    (placeholders (assemble nonce ordinal offset pieces)).Nodup := by
  induction pieces generalizing ordinal offset with
  | nil => simp [assemble, placeholders]
  | cons p ps ih =>
    have hps : ∀ q ∈ ps, q.WellFormed := fun q hq => h q (List.mem_cons_of_mem _ hq)
    cases p with
    | markup text => simpa [assemble, placeholders] using ih ordinal (offset + size text) hps
    | block kind opening body =>
      have hk : kind ≠ .markup := kind_ne_markup (h _ List.mem_cons_self)
      refine List.nodup_cons.mpr ⟨fun hmem => ?_, ih (ordinal + 1) _ hps⟩
      obtain ⟨k, m, hk', hm, heq⟩ := ofBlock_of_mem_placeholders nonce _ _ hps hmem
      have hom := Placeholder.ofBlock_injective hk hk' heq
      omega

/-- A placeholder that no two fragments share belongs to one fragment. -/
theorem eq_of_placeholder {fragments : List Fragment} (hn : (placeholders fragments).Nodup)
    {f g : Fragment} {p : Placeholder} (hf : f ∈ fragments) (hg : g ∈ fragments)
    (hfp : f.placeholder = some p) (hgp : g.placeholder = some p) : f = g := by
  induction fragments with
  | nil => cases hf
  | cons a as ih =>
    have hmem {b : Fragment} (hb : b ∈ as) (hbp : b.placeholder = some p) : p ∈ placeholders as :=
      List.mem_filterMap.mpr ⟨b, hb, hbp⟩
    have hrest : (placeholders as).Nodup :=
      hn.sublist ((List.sublist_cons_self a as).filterMap _)
    have hfirst (ha : a.placeholder = some p) : p ∉ placeholders as := by
      rw [placeholders, List.filterMap_cons_some ha] at hn
      exact (List.nodup_cons.mp hn).1
    rcases List.mem_cons.mp hf with hf | hf <;> rcases List.mem_cons.mp hg with hg | hg
    · rw [hf, hg]
    · exact absurd (hmem hg hgp) (hfirst (hf ▸ hfp))
    · exact absurd (hmem hf hfp) (hfirst (hg ▸ hgp))
    · exact ih hrest hf hg

theorem has_token_iff {token : String} {f : Fragment} :
    (f.placeholder.any fun p => p.token == token) = true ↔ f.placeholder = some ⟨token⟩ := by
  cases hf : f.placeholder with
  | none => simp
  | some p =>
    cases p
    simp

theorem fragment?_eq_some_iff {s : Scanned} (hn : (placeholders s.fragments).Nodup) {token : String}
    {f : Fragment} :
    s.fragment? token = some f ↔ f ∈ s.fragments ∧ f.placeholder = some ⟨token⟩ := by
  unfold fragment?
  constructor
  · intro h
    have hp := List.find?_some h
    exact ⟨List.mem_of_find?_eq_some h, has_token_iff.mp hp⟩
  · rintro ⟨hf, hp⟩
    cases hg : s.fragments.find? fun f => f.placeholder.any (·.token == token) with
    | none => exact absurd (has_token_iff.mpr hp) (List.find?_eq_none.mp hg f hf)
    | some g =>
      have hgp := List.find?_some hg
      rw [eq_of_placeholder hn (List.mem_of_find?_eq_some hg) hf (has_token_iff.mp hgp) hp]

theorem fragment?_eq_none_iff {s : Scanned} {token : String} :
    s.fragment? token = none ↔ ∀ f ∈ s.fragments, f.placeholder ≠ some ⟨token⟩ := by
  rw [fragment?, List.find?_eq_none]
  exact forall₂_congr fun f _ => not_congr has_token_iff

theorem placeholder_of_mem_blocks (h : ∀ p ∈ pieces, p.WellFormed) {f : Fragment}
    (hf : f ∈ assemble nonce ordinal offset pieces) (hk : f.kind ≠ .markup) :
    ∃ p, f.placeholder = some p := by
  have hb : f ∈ blocks (assemble nonce ordinal offset pieces) :=
    List.mem_filter.mpr ⟨hf, by simpa using hk⟩
  obtain ⟨n, hn⟩ := List.mem_iff_getElem?.mp hb
  exact ⟨_, placeholder_blocks_assemble nonce ordinal offset h hn⟩

theorem leaves_images {fragments : List Fragment}
    (hm : ∀ f ∈ fragments, f.kind = .markup → f.placeholder = none)
    (hb : ∀ f ∈ fragments, f.kind ≠ .markup → ∃ p, f.placeholder = some p) :
    List.Forall₂ Fragment.Leaves fragments (fragments.map Fragment.image) := by
  refine List.forall₂_map_right_iff.mpr (List.forall₂_same.mpr fun f hf => ?_)
  unfold Fragment.Leaves Fragment.image
  split_ifs with hk
  · rw [hm f hf hk]
  · obtain ⟨p, hp⟩ := hb f hf hk
    exact ⟨p, hp, by rw [hp]⟩

theorem exists_pieces_of_scan {source : List Char} {s : Scanned} (h : scan source = .ok s) :
    ∃ pieces, Piece.CutOf source pieces ∧
      s = ⟨assemble (unitNonce source) 0 0 pieces, size source⟩ := by
  unfold scan at h
  split at h
  · rename_i pieces hcut
    cases h
    exact ⟨pieces, Piece.cutOf_of_cut hcut, rfl⟩
  · cases h

theorem kind_eq_markup_iff {source : List Char} {s : Scanned} (h : scan source = .ok s)
    {f : Fragment} (hf : f ∈ s.fragments) : f.kind = .markup ↔ f.placeholder = none := by
  obtain ⟨pieces, hcut, rfl⟩ := exists_pieces_of_scan h
  have hat := at_of_mem_assemble (unitNonce source) 0 0 [] hcut.wellFormed hcut.source.symm rfl hf
  constructor
  · intro hk
    rw [if_pos hk] at hat
    exact hat.2.2
  · intro hp
    by_contra hk
    obtain ⟨p, hp'⟩ := placeholder_of_mem_blocks _ _ _ hcut.wellFormed hf hk
    rw [hp] at hp'
    cases hp'

theorem sourceSize_of_scan {source : List Char} {s : Scanned} (h : scan source = .ok s) :
    s.sourceSize = size source := by
  obtain ⟨pieces, -, rfl⟩ := exists_pieces_of_scan h
  rfl

theorem consecutive_of_scan {source : List Char} {s : Scanned} (h : scan source = .ok s) :
    Consecutive 0 (size source) s.fragments := by
  obtain ⟨pieces, hcut, rfl⟩ := exists_pieces_of_scan h
  simpa [hcut.source] using consecutive_assemble (unitNonce source) 0 0 hcut.wellFormed

theorem nodup_placeholders {source : List Char} {s : Scanned} (h : scan source = .ok s) :
    (placeholders s.fragments).Nodup := by
  obtain ⟨pieces, hcut, rfl⟩ := exists_pieces_of_scan h
  exact nodup_placeholders_assemble _ _ _ hcut.wellFormed

/-- Every fragment stands in the source. -/
theorem at_of_scan {source : List Char} {s : Scanned} (h : scan source = .ok s) {f : Fragment}
    (hf : f ∈ s.fragments) : if f.kind = .markup then f.MarkupAt source else f.BlockAt source := by
  obtain ⟨pieces, hcut, rfl⟩ := exists_pieces_of_scan h
  exact at_of_mem_assemble (unitNonce source) 0 0 [] hcut.wellFormed hcut.source.symm rfl hf

/-- A fragment with a placeholder is a block. -/
theorem blockAt_of_scan {source : List Char} {s : Scanned} (h : scan source = .ok s) {f : Fragment}
    (hf : f ∈ s.fragments) {p : Placeholder} (hp : f.placeholder = some p) : f.BlockAt source := by
  have hat := at_of_scan h hf
  rwa [if_neg (by rw [kind_eq_markup_iff h hf, hp]; simp)] at hat

/-- What a scanned source says about the source. -/
structure Tiling (source : List Char) (s : Scanned) : Prop where
  sourceSize : s.sourceSize = size source
  consecutive : Consecutive 0 (size source) s.fragments
  markup_apart : s.fragments.IsChain fun f g => ¬ (f.kind = .markup ∧ g.kind = .markup)
  markup_at : ∀ f ∈ s.fragments, f.kind = .markup → f.MarkupAt source
  block_at : ∀ f ∈ s.fragments, f.kind ≠ .markup → f.BlockAt source
  markup : ∃ images, s.markup = images.flatten ∧ List.Forall₂ Fragment.Leaves s.fragments images
  ordinal : ∀ (n : Nat) (f : Fragment), (blocks s.fragments)[n]? = some f →
    f.placeholder = some (.ofBlock f.kind (unitNonce source) n)
  distinct : (placeholders s.fragments).Nodup
  found : ∀ token f,
    s.fragment? token = some f ↔ f ∈ s.fragments ∧ f.placeholder = some ⟨token⟩
  not_found : ∀ token, s.fragment? token = none ↔ ∀ f ∈ s.fragments, f.placeholder ≠ some ⟨token⟩

/-- Scanning accounts for every byte of a source, and for every placeholder. -/
theorem scan_tiles_source {source : List Char} {s : Scanned} (h : scan source = .ok s) :
    Tiling source s := by
  obtain ⟨pieces, hcut, rfl⟩ := exists_pieces_of_scan h
  have hw := hcut.wellFormed
  have hat (f : Fragment) (hf : f ∈ assemble (unitNonce source) 0 0 pieces) :=
    at_of_mem_assemble (unitNonce source) 0 0 [] hw hcut.source.symm rfl hf
  have hmarkup (f : Fragment) (hf : f ∈ assemble (unitNonce source) 0 0 pieces)
      (hk : f.kind = .markup) : f.MarkupAt source := by
    simpa [hk] using hat f hf
  have hdistinct := nodup_placeholders_assemble (unitNonce source) 0 0 hw
  constructor
  · rfl
  · simpa [hcut.source] using consecutive_assemble (unitNonce source) 0 0 hw
  · exact markup_apart_assemble _ _ _ hw hcut.alternate
  · exact hmarkup
  · intro f hf hk
    simpa [hk] using hat f hf
  · refine ⟨_, List.flatMap_def, leaves_images (fun f hf hk => (hmarkup f hf hk).2.2) ?_⟩
    intro f hf hk
    exact placeholder_of_mem_blocks _ _ _ hw hf hk
  · intro n f hf
    simpa using placeholder_blocks_assemble _ _ _ hw hf
  · exact hdistinct
  · intro token f
    exact fragment?_eq_some_iff hdistinct
  · intro token
    exact fragment?_eq_none_iff

/-- An escaped character of two bytes, and a brace in a string, inside a block between markup. -/
theorem scan_tiles_escaped :
    ∃ source s, source = "é style \x7b \"\\é\x7d\" \x7d b script\n\x7b\x7d".toList ∧
      scan source = .ok s ∧ s.fragments.map (·.kind) = [.markup, .style, .markup, .script] ∧
      Tiling source s := by
  have hkinds : (scan "é style \x7b \"\\é\x7d\" \x7d b script\n\x7b\x7d".toList).toOption.map
      (·.fragments.map (·.kind)) = some [.markup, .style, .markup, .script] := by
    decide +kernel
  cases hs : scan "é style \x7b \"\\é\x7d\" \x7d b script\n\x7b\x7d".toList with
  | error e =>
    rw [hs] at hkinds
    cases hkinds
  | ok s =>
    rw [hs] at hkinds
    exact ⟨_, s, rfl, hs, Option.some.inj hkinds, scan_tiles_source hs⟩

end Scanned

end Chtl
