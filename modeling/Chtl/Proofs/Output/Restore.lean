import Chtl.Output.Substitute
import Chtl.Proofs.Output.Segments

/-!
# Putting blocks back

Each fragment of a unit takes up a stretch of the source, and the stretches join to the source. The
markup of the unit is cut at its own placeholders and nowhere else, also where two of them touch, or
where one touches digits and underscores. If every placeholder is replaced by the stretch of its own
block, the markup becomes the source again, in one pass.
-/

set_option autoImplicit false
set_option linter.all false

namespace Chtl

open Text

/-! ## Stretches of a source -/

namespace Text

theorem dropBytes_size (before rest : List Char) :
    dropBytes (size before) (before ++ rest) = rest := by
  induction before with
  | nil => rw [size_nil, dropBytes, List.nil_append]
  | cons c before ih =>
    obtain ⟨n, hn⟩ := Nat.exists_eq_add_one_of_ne_zero c.utf8Size_pos.ne'
    have hleft : n + size before + 1 - c.utf8Size = size before := by omega
    rw [size_cons, hn, Nat.add_right_comm, List.cons_append, dropBytes, hleft, ih]

theorem takeBytes_size (text rest : List Char) : takeBytes (size text) (text ++ rest) = text := by
  induction text with
  | nil => rw [size_nil, takeBytes]
  | cons c text ih =>
    obtain ⟨n, hn⟩ := Nat.exists_eq_add_one_of_ne_zero c.utf8Size_pos.ne'
    have hleft : n + size text + 1 - c.utf8Size = size text := by omega
    rw [size_cons, hn, Nat.add_right_comm, List.cons_append, takeBytes, hleft, ih]

/-- A text is cut at an offset in one way only. -/
theorem append_inj_of_size {a b before rest : List Char} (h : a ++ b = before ++ rest)
    (hsize : size a = size before) : a = before ∧ b = rest := by
  have hnil {more : List Char} (hmore : size more = 0) : more = [] := by
    by_contra hne
    exact absurd (size_pos hne) (by omega)
  rcases List.append_eq_append_iff.mp h with ⟨more, rfl, rfl⟩ | ⟨more, rfl, rfl⟩
  all_goals
    rw [size_append] at hsize
    obtain rfl : more = [] := hnil (by omega)
    simp

end Text

/-- What a source holds between the ends of a span. -/
def stretch (source : List Char) (span : Span) : List Char :=
  takeBytes span.size (dropBytes span.start source)

theorem stretch_of_occupies {source text : List Char} {span : Span}
    (h : Occupies source text span) : stretch source span = text := by
  obtain ⟨before, after, rfl, hstart, hstop⟩ := h
  have hsize : span.size = size text := by
    rw [Span.size]
    omega
  rw [stretch, hsize, hstart, dropBytes_size, takeBytes_size]

/-- Fragments that follow one another to the end of a source join to what is left of it. -/
theorem Consecutive.flatMap_stretch {source : List Char} {start : Nat} {fs : List Fragment}
    (h : Consecutive start (size source) fs)
    (hat : ∀ f ∈ fs, ∃ text, Occupies source text f.range) (before rest : List Char)
    (hsource : source = before ++ rest) (hstart : start = size before) :
    fs.flatMap (fun f => stretch source f.range) = rest := by
  induction fs generalizing start before rest with
  | nil =>
    have hend : start = size source := h
    rw [hsource, size_append] at hend
    by_contra hne
    exact absurd (size_pos (Ne.symm hne)) (by omega)
  | cons f fs ih =>
    obtain ⟨hbegin, -, hrest⟩ := h
    obtain ⟨hown, hlater⟩ := List.forall_mem_cons.mp hat
    obtain ⟨text, htext⟩ := hown
    have hstretch := stretch_of_occupies htext
    obtain ⟨lead, after, hs, hlead, hstop⟩ := htext
    obtain ⟨rfl, rfl⟩ := append_inj_of_size (hs.symm.trans hsource) (by omega)
    have hjoin := ih hrest hlater (lead ++ text) after (by simp [hs]) (by simp [hstop])
    rw [List.flatMap_cons, hstretch, hjoin]

namespace Scanned

variable {source : List Char} {s : Scanned}

theorem occupies_of_scan (h : scan source = .ok s) {f : Fragment} (hf : f ∈ s.fragments) :
    ∃ text, Occupies source text f.range := by
  have hat := at_of_scan h hf
  split_ifs at hat
  · exact ⟨_, hat.2.1⟩
  · obtain ⟨opening, -, hblock, -⟩ := hat
    exact ⟨_, hblock⟩

theorem stretch_text (h : scan source = .ok s) {f : Fragment} (hf : f ∈ s.fragments)
    (hp : f.placeholder = none) : stretch source f.range = f.text.toList := by
  have hat := at_of_scan h hf
  rw [if_pos ((kind_eq_markup_iff h hf).mpr hp)] at hat
  exact stretch_of_occupies hat.2.1

theorem flatMap_stretch (h : scan source = .ok s) :
    s.fragments.flatMap (fun f => stretch source f.range) = source :=
  (consecutive_of_scan h).flatMap_stretch (fun _ hf => occupies_of_scan h hf) [] source rfl rfl

end Scanned

/-! ## Cutting the markup of a unit -/

theorem Sha256.length_digest (message : List UInt8) : (digest message).length = 32 := by
  simp [digest, State.words, bigEndian]

theorem Sha256.length_hex (bytes : List UInt8) : (hex bytes).toList.length = 2 * bytes.length := by
  simp only [hex, String.toList_ofList, List.length_flatMap, List.length_cons, List.length_nil,
    List.map_const', List.sum_replicate_nat]
  omega

namespace Output

theorem isDecimalDigit_of_mem_toString {n : Nat} {c : Char} (hc : c ∈ (toString n).toList) :
    isDecimalDigit c = true := by
  have hdigit := isAsciiDigit_of_mem_toString hc
  have hle : c ≤ '9' := by
    simp only [isAsciiDigit, Bool.and_eq_true, decide_eq_true_eq] at hdigit
    exact hdigit.2
  have hascii : c.toNat < 128 := Nat.lt_of_le_of_lt hle (by decide)
  rw [isDecimalDigit, if_pos hascii, hdigit]

theorem numbered_ofBlock (source : List Char) (ordinal : Nat) :
    Numbered (unitNonce source).toList (toString ordinal).toList := by
  refine ⟨?_, ?_, ?_, fun c hc => isDecimalDigit_of_mem_toString hc⟩
  · rw [unitNonce, Sha256.length_hex, List.length_take, Sha256.length_digest]
    rfl
  · exact List.all_eq_true.mpr (Sha256.forall_mem_hex _ (by decide))
  · intro hnil
    have hrepr : ordinal.repr = "" := String.toList_eq_nil_iff.mp hnil
    exact Nat.repr_ne_empty hrepr

/-- The placeholders of a unit have the shape. -/
theorem isToken_ofBlock {kind : FragmentKind} (hkind : kind ≠ .markup) (source : List Char)
    (ordinal : Nat) :
    IsToken (Placeholder.ofBlock kind (unitNonce source) ordinal).token.toList := by
  refine ⟨kind, _, _, hkind, numbered_ofBlock source ordinal, ?_⟩
  rw [Placeholder.toList_ofBlock, opening, closing]
  simp

/-- What a fragment is cut into: a block is one placeholder, markup falls into its characters. -/
def cuts (f : Fragment) : List Segment :=
  match f.placeholder with
  | some p => [.token p.token.toList]
  | none => f.text.toList.map .plain

/-- The markup of fragments is cut at their placeholders. -/
theorem segments_images {source : List Char} {fs : List Fragment}
    (h : Scanned.Marked (unitNonce source) fs) :
    segments (fs.flatMap Fragment.image) = fs.flatMap cuts := by
  induction fs with
  | nil => rw [List.flatMap_nil, List.flatMap_nil, segments]
  | cons f fs ih =>
    rw [List.flatMap_cons, List.flatMap_cons, ← ih h.tail]
    cases hf : f.placeholder with
    | some p =>
      obtain ⟨-, kind, ordinal, hkind, rfl⟩ := h.token p (by simp [Scanned.placeholders, hf])
      have htoken := isToken_ofBlock hkind source ordinal
      rw [Fragment.image_of_some hf, segments_token htoken, cuts, hf]
      rfl
    | none =>
      have hcuts : cuts f = f.text.toList.map .plain := by simp [cuts, hf]
      rw [Fragment.image_of_none hf, hcuts]
      refine segments_plain fun u hu hsuffix t ht hprefix => ?_
      obtain ⟨own, rfl⟩ := ht.begins
      obtain ⟨rest, hrest⟩ := hprefix
      have hplain : ¬ Placeholder.mark <:+: u := fun hpart =>
        h.text f List.mem_cons_self (hpart.trans hsuffix.isInfix)
      rw [List.append_assoc] at hrest
      cases fs with
      | nil =>
        rw [List.flatMap_nil, List.append_nil, List.append_assoc] at hrest
        exact hplain ⟨[], _, hrest⟩
      | cons g gs =>
        cases hg : g.placeholder with
        | none =>
          refine (List.isChain_cons_cons.mp h.apart).1 ⟨(h.kind f (by simp)).mpr hf, ?_⟩
          exact (h.kind g (by simp)).mpr hg
        | some q =>
          -- behind the text stands a placeholder, which begins like the one that is looked for
          obtain ⟨-, kind, ordinal, hkind, rfl⟩ :=
            h.token q (by simp [Scanned.placeholders, hf, hg])
          obtain ⟨lead, hlead⟩ := Placeholder.begins_ofBlock hkind (unitNonce source) ordinal
          rw [List.flatMap_cons, Fragment.image_of_some hg, hlead,
            List.append_assoc (_ ++ _)] at hrest
          exact Placeholder.not_part_behind hu hplain hrest.symm

/-! ## Putting back -/

theorem pass_of_closed {pending : Replacements} {cs : List Char} (h : isOpen pending cs = false) :
    pass pending cs = cs := by
  conv_rhs => rw [← flatMap_text_segments cs]
  refine List.flatMap_congr fun s hs => ?_
  cases s with
  | plain c => rfl
  | token t =>
    have hnone : pending.get? t = none := by
      simpa using List.any_eq_false.mp h t (mem_tokens_iff.mpr hs)
    simp [hnone, Segment.text]

/-- If a pass leaves no placeholder, there is no other one. -/
theorem substitute_eq_pass {pending : Replacements} {cs : List Char}
    (h : tokens (pass pending cs) = []) : substitute pending cs = pass pending cs := by
  rw [substitute]
  split_ifs with hopen
  · rw [substitute, isOpen, h, List.any_nil]
    rfl
  · exact (pass_of_closed (by simpa using hopen)).symm

/-- The stretches of a source that its blocks take up, under their placeholders. -/
def originals (source : List Char) (fragments : List Fragment) : Replacements :=
  fragments.filterMap fun f => f.placeholder.map fun p => (p.token.toList, stretch source f.range)

theorem get?_originals {source : List Char} {fs : List Fragment}
    (hn : (Scanned.placeholders fs).Nodup) {f : Fragment} (hf : f ∈ fs) {p : Placeholder}
    (hp : f.placeholder = some p) :
    (originals source fs).get? p.token.toList = some (stretch source f.range) := by
  induction fs with
  | nil => cases hf
  | cons g gs ih =>
    cases hg : g.placeholder with
    | none =>
      rw [Scanned.placeholders_cons_none hg] at hn
      rw [originals, List.filterMap_cons_none (by rw [hg, Option.map_none])]
      rcases List.mem_cons.mp hf with rfl | hf
      · rw [hg] at hp
        cases hp
      · exact ih hn hf
    | some q =>
      rw [Scanned.placeholders_cons_some hg] at hn
      obtain ⟨hnot, hrest⟩ := List.nodup_cons.mp hn
      rw [originals, List.filterMap_cons_some (by rw [hg, Option.map_some]), Table.get?]
      rcases List.mem_cons.mp hf with rfl | hf
      · obtain rfl : q = p := by simpa [hg] using hp
        simp
      · have hne : q ≠ p := by
          rintro rfl
          exact hnot (List.mem_filterMap.mpr ⟨f, hf, hp⟩)
        have hother : q.token.toList ≠ p.token.toList := fun heq =>
          hne (congrArg Placeholder.mk (String.toList_inj.mp heq))
        rw [List.find?_cons_of_neg (by simpa using hother)]
        exact ih hrest hf

/-- Blocks that are put back for their placeholders give the source. -/
theorem substitute_markup {source : List Char} {s : Scanned} {m : Replacements}
    (hmark : ¬ Placeholder.mark <:+: source) (h : scan source = .ok s)
    (hm : ∀ f ∈ s.fragments, ∀ p, f.placeholder = some p →
      m.get? p.token.toList = some (stretch source f.range)) :
    substitute m s.markup = source := by
  have hpass : pass m s.markup = source := by
    rw [pass, mapTokens, Scanned.markup, segments_images (Scanned.marked_of_scan hmark h),
      List.flatMap_assoc]
    conv_rhs => rw [← Scanned.flatMap_stretch h]
    refine List.flatMap_congr fun f hf => ?_
    cases hp : f.placeholder with
    | some p => simp [cuts, hp, hm f hf p hp]
    | none => simp [cuts, hp, Scanned.stretch_text h hf hp, List.flatMap_map]
  have hclosed : tokens (pass m s.markup) = [] := by
    rw [hpass]
    exact tokens_of_not_mark hmark
  rw [substitute_eq_pass hclosed, hpass]

/-- Two blocks that touch, between underscores and a digit. -/
theorem substitute_markup_touching :
    ∃ source s, source = "_ style \x7b\x7dscript \x7b\x7d0__\n".toList ∧
      ¬ Placeholder.mark <:+: source ∧ scan source = .ok s ∧ s.fragments.length = 4 ∧
      (∀ f ∈ s.fragments, ∀ p, f.placeholder = some p →
        (originals source s.fragments).get? p.token.toList = some (stretch source f.range)) ∧
      substitute (originals source s.fragments) s.markup = source := by
  obtain ⟨source, hsource⟩ :
      ∃ source, source = "_ style \x7b\x7dscript \x7b\x7d0__\n".toList := ⟨_, rfl⟩
  have hmark : ¬ Placeholder.mark <:+: source := by
    rw [hsource, String.toList_ofList]
    decide +kernel
  have hscan : ∃ s, scan source = .ok s ∧ s.fragments.length = 4 := by
    rw [hsource, String.toList_ofList]
    decide +kernel
  obtain ⟨s, hs, hlength⟩ := hscan
  have hm (f : Fragment) (hf : f ∈ s.fragments) (p : Placeholder) (hp : f.placeholder = some p) :
      (originals source s.fragments).get? p.token.toList = some (stretch source f.range) :=
    get?_originals (Scanned.nodup_placeholders hs) hf hp
  exact ⟨source, s, hsource, hmark, hs, hlength, hm, substitute_markup hmark hs hm⟩

end Output

end Chtl
