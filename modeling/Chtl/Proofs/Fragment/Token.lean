import Chtl.Proofs.Fragment.Tiling
import Chtl.Proofs.Text.Run
import Chtl.Proofs.Text.Word

/-!
# Placeholders in the markup of a unit

A placeholder is a word, and it begins with a mark. If the source holds no mark, a placeholder is a
whole run of the unit's markup at most once: no other text of the markup reads like it, alone or
together with the placeholders around it.
-/

set_option autoImplicit false
set_option linter.all false

namespace Chtl

open Text

/-- What is true of the sixteen digits is true of all characters of a number. -/
theorem Sha256.forall_mem_hex {p : Char → Prop} (bytes : List UInt8)
    (h : ∀ n < 16, p (if n < 10 then Char.ofNat (48 + n) else Char.ofNat (87 + n))) :
    ∀ c ∈ (hex bytes).toList, p c := by
  intro c hc
  simp only [hex, String.toList_ofList, List.mem_flatMap, List.mem_cons, List.not_mem_nil,
    or_false] at hc
  obtain ⟨b, -, hc⟩ := hc
  have hlt := b.toNat_lt
  rcases hc with rfl | rfl
  · exact h _ (by omega)
  · exact h _ (by omega)

namespace Placeholder

/-- The mark that every placeholder begins with. -/
def mark : List Char := "__CHTL_".toList

theorem mark_part (kind : FragmentKind) (nonce : String) (ordinal : Nat) :
    mark <:+: (ofBlock kind nonce ordinal).token.toList := by
  rw [toList_ofBlock]
  exact (List.prefix_append _ _).isInfix

theorem isWord_ofBlock (kind : FragmentKind) (source : List Char) (ordinal : Nat) :
    IsWord (ofBlock kind (unitNonce source) ordinal).token.toList := by
  have hword {l : List Char} (h : l.all isWordLetter = true) : ∀ c ∈ l, isWordLetter c = true :=
    List.all_eq_true.mp h
  have htag : kind.tokenTag.toList.all isWordLetter = true := by cases kind <;> decide
  constructor
  · exact (mark_part kind _ ordinal).subset (by decide)
  · simp only [toList_ofBlock, List.forall_mem_append]
    refine ⟨hword (by decide), hword htag, hword (by decide), ?_, hword (by decide), ?_,
      hword (by decide)⟩
    · exact Sha256.forall_mem_hex _ (by decide)
    · intro c hc
      simp [isWordLetter, isAsciiAlnum, isAsciiDigit_of_mem_toString hc]

end Placeholder

theorem Scanned.isWord_of_mem_placeholders {source : List Char} {s : Scanned}
    (h : scan source = .ok s) {p : Placeholder} (hp : p ∈ placeholders s.fragments) :
    IsWord p.token.toList ∧ Placeholder.mark <:+: p.token.toList := by
  obtain ⟨pieces, hcut, rfl⟩ := exists_pieces_of_scan h
  obtain ⟨kind, m, -, -, rfl⟩ := ofBlock_of_mem_placeholders _ _ _ hcut.wellFormed hp
  exact ⟨Placeholder.isWord_ofBlock kind source m, Placeholder.mark_part kind _ m⟩

theorem Scanned.text_part {source : List Char} {s : Scanned} (h : scan source = .ok s)
    {f : Fragment} (hf : f ∈ s.fragments) : f.text.toList <:+: source := by
  obtain ⟨pieces, hcut, rfl⟩ := exists_pieces_of_scan h
  have hat := at_of_mem_assemble (unitNonce source) 0 0 [] hcut.wellFormed hcut.source.symm rfl hf
  have hoccupies : ∃ span, Occupies source f.text.toList span := by
    split_ifs at hat
    · exact ⟨_, hat.2.1⟩
    · obtain ⟨opening, -, -, -, -, hbody⟩ := hat
      exact ⟨_, hbody⟩
  obtain ⟨span, before, after, hs, -⟩ := hoccupies
  exact ⟨before, after, by rw [hs, List.append_assoc]⟩

namespace Placeholder

theorem begins_ofBlock {kind : FragmentKind} (hk : kind ≠ .markup) (nonce : String)
    (ordinal : Nat) :
    ∃ more, (ofBlock kind nonce ordinal).token.toList = mark ++ ['S'] ++ more := by
  cases kind with
  | markup => exact absurd rfl hk
  | style => exact ⟨_, by rw [toList_ofBlock]; rfl⟩
  | script => exact ⟨_, by rw [toList_ofBlock]; rfl⟩

/-- A text without the mark does not end where a placeholder begins inside another one. -/
theorem not_part_behind {u more rest : List Char} (hu : u ≠ []) (hmark : ¬ mark <:+: u) :
    u ++ (mark ++ ['S'] ++ more) ≠ mark ++ ['S'] ++ rest := by
  intro h
  have hlead : mark <+: mark ++ ['S'] ++ rest := by
    rw [List.append_assoc]
    exact List.prefix_append _ _
  have huprefix : u <+: mark ++ ['S'] ++ rest := ⟨_, h⟩
  by_cases hlength : mark.length ≤ u.length
  · exact hmark (List.prefix_of_prefix_length_le hlead huprefix hlength).isInfix
  · have htake : u = mark.take u.length :=
      List.prefix_iff_eq_take.mp (List.prefix_of_prefix_length_le huprefix hlead (by omega))
    have hshort : ∀ k < mark.length, k ≠ 0 →
        (mark.take k ++ (mark ++ ['S'])).take 8 ≠ mark ++ ['S'] := by
      decide
    refine hshort u.length (by omega) (by simpa using hu) ?_
    have hlong : 8 ≤ (u ++ (mark ++ ['S'])).length := by
      have hlead : (mark ++ ['S']).length = 8 := rfl
      rw [List.length_append]
      omega
    have hown : (u ++ (mark ++ ['S']) ++ more).take 8 = (u ++ (mark ++ ['S'])).take 8 :=
      List.take_append_of_le_length hlong
    rw [List.append_assoc u] at hown
    have hother : (mark ++ ['S'] ++ rest).take 8 = mark ++ ['S'] := rfl
    rw [← htake, ← hown, h, hother]

theorem eq_of_prefix_underscore {a b : List Char} (ha : '_' ∉ a) (hb : '_' ∉ b)
    (h : a ++ ['_', '_'] <+: b ++ ['_', '_']) : a = b := by
  have hstop {cs : List Char} (hcs : '_' ∉ cs) (more : List Char) :
      (cs ++ '_' :: more).takeWhile (· != '_') = cs := by
    rw [List.takeWhile_append_of_pos]
    · simp
    · intro c hc
      simpa using ne_of_mem_of_not_mem hc hcs
  obtain ⟨more, hmore⟩ := h
  have htake := congrArg (List.takeWhile (· != '_')) hmore
  rwa [List.append_assoc, List.cons_append, hstop ha, hstop hb] at htake

/-- No placeholder begins with another one of its unit. -/
theorem ofBlock_eq_of_prefix {j k : FragmentKind} {nonce : String} {m n : Nat}
    (hj : j ≠ .markup) (hk : k ≠ .markup)
    (h : (ofBlock j nonce m).token.toList <+: (ofBlock k nonce n).token.toList) :
    ofBlock j nonce m = ofBlock k nonce n := by
  have hunder (i : Nat) : '_' ∉ (toString i).toList := by
    intro hmem
    exact absurd (isAsciiDigit_of_mem_toString hmem) (by decide)
  have hparts :
      j = k ∧ (toString m).toList ++ ['_', '_'] <+: (toString n).toList ++ ['_', '_'] := by
    rw [toList_ofBlock, toList_ofBlock] at h
    cases j <;> cases k <;> simp_all [FragmentKind.tokenTag]
  obtain ⟨rfl, hdigits⟩ := hparts
  have hlist := eq_of_prefix_underscore (hunder m) (hunder n) hdigits
  rw [toString_injective (String.toList_inj.mp hlist)]

end Placeholder

namespace Scanned

theorem placeholders_cons_none {f : Fragment} (h : f.placeholder = none) (fs : List Fragment) :
    placeholders (f :: fs) = placeholders fs :=
  List.filterMap_cons_none h

theorem placeholders_cons_some {f : Fragment} {p : Placeholder} (h : f.placeholder = some p)
    (fs : List Fragment) : placeholders (f :: fs) = p :: placeholders fs :=
  List.filterMap_cons_some h

/-- Fragments whose placeholders share a nonce and whose texts hold no mark. No two texts are
neighbours. -/
structure Marked (nonce : String) (fragments : List Fragment) : Prop where
  kind : ∀ f ∈ fragments, f.kind = .markup ↔ f.placeholder = none
  text : ∀ f ∈ fragments, ¬ Placeholder.mark <:+: f.text.toList
  apart : fragments.IsChain fun f g => ¬ (f.kind = .markup ∧ g.kind = .markup)
  token : ∀ p ∈ placeholders fragments, (∀ c ∈ p.token.toList, isNameChar c = true) ∧
    ∃ kind ordinal, kind ≠ .markup ∧ p = .ofBlock kind nonce ordinal

section

variable {nonce : String} {f : Fragment} {fs : List Fragment}

theorem Marked.tail (h : Marked nonce (f :: fs)) : Marked nonce fs :=
  ⟨fun g hg => h.kind g (List.mem_cons_of_mem f hg),
    fun g hg => h.text g (List.mem_cons_of_mem f hg), h.apart.tail,
    fun p hp => h.token p (((List.sublist_cons_self f fs).filterMap _).subset hp)⟩

/-- Behind a text stands a placeholder, so a run that begins in the text is none. -/
theorem Marked.run_in_text_ne (h : Marked nonce (f :: fs)) (hf : f.placeholder = none)
    {u token : List Char} (hu : u ≠ []) (hsuffix : u <:+ f.text.toList) :
    (u ++ fs.flatMap Fragment.image).takeWhile isNameChar ≠
      Placeholder.mark ++ ['S'] ++ token := by
  intro htake
  have hplain : ¬ Placeholder.mark <:+: u := fun hmark =>
    h.text f List.mem_cons_self (hmark.trans hsuffix.isInfix)
  have hown : u.takeWhile isNameChar ≠ Placeholder.mark ++ ['S'] ++ token := by
    intro heq
    have hmark : Placeholder.mark <+: u.takeWhile isNameChar := by
      rw [heq, List.append_assoc]
      exact List.prefix_append _ _
    exact hplain (hmark.trans (List.takeWhile_prefix _)).isInfix
  cases fs with
  | nil =>
    rw [List.flatMap_nil, List.append_nil] at htake
    exact hown htake
  | cons g gs =>
    cases hg : g.placeholder with
    | none =>
      refine (List.isChain_cons_cons.mp h.apart).1 ⟨(h.kind f (by simp)).mpr hf, ?_⟩
      exact (h.kind g (by simp)).mpr hg
    | some q =>
      obtain ⟨hnames, k, m, hk, rfl⟩ := h.token q (by simp [placeholders, hf, hg])
      obtain ⟨lead, hlead⟩ := Placeholder.begins_ofBlock hk nonce m
      rw [List.takeWhile_append, List.flatMap_cons, Fragment.image, hg,
        List.takeWhile_append_of_pos hnames, hlead, List.append_assoc (_ ++ _)] at htake
      split_ifs at htake
      · exact Placeholder.not_part_behind hu hplain htake
      · exact hown htake

/-- A placeholder of a unit is a run of its fragments no more often than they carry it. -/
theorem Marked.runs_le {fragments : List Fragment} (h : Marked nonce fragments)
    {kind : FragmentKind} (hkind : kind ≠ .markup) (ordinal : Nat) (before : Option Char) :
    runs (Placeholder.ofBlock kind nonce ordinal).token.toList before
        (fragments.flatMap Fragment.image) ≤
      (placeholders fragments).count (.ofBlock kind nonce ordinal) := by
  induction fragments generalizing before with
  | nil => simp [runs]
  | cons f fs ih =>
    rw [List.flatMap_cons]
    cases hf : f.placeholder with
    | none =>
      rw [Fragment.image_of_none hf, placeholders_cons_none hf, runs_text]
      · exact ih h.tail _
      · intro u hu hsuffix
        obtain ⟨mine, hmine⟩ := Placeholder.begins_ofBlock hkind nonce ordinal
        rw [hmine]
        exact h.run_in_text_ne hf hu hsuffix
    | some p =>
      obtain ⟨hnames, k, m, hk, rfl⟩ := h.token p (by simp [placeholders, hf])
      obtain ⟨lead, hlead⟩ := Placeholder.begins_ofBlock hk nonce m
      rw [Fragment.image_of_some hf, placeholders_cons_some hf, List.count_cons]
      have hsome : (Placeholder.ofBlock k nonce m).token.toList ≠ [] := by
        rw [hlead]
        simp
      obtain ⟨last, hlast⟩ := runs_name_le _ before _ hnames hsome
      have hmore := ih h.tail last
      refine Nat.le_trans hlast ?_
      split_ifs with hprefix heq
      · omega
      · exact absurd (beq_of_eq (Placeholder.ofBlock_eq_of_prefix hk hkind hprefix)) heq
      · omega
      · omega

end

theorem marked_of_scan {source : List Char} {s : Scanned} (hmark : ¬ Placeholder.mark <:+: source)
    (h : scan source = .ok s) : Marked (unitNonce source) s.fragments := by
  refine ⟨fun f hf => kind_eq_markup_iff h hf,
    fun f hf hpart => hmark (hpart.trans (text_part h hf)), ?_, ?_⟩
  · obtain ⟨pieces, hcut, rfl⟩ := exists_pieces_of_scan h
    exact markup_apart_assemble _ _ _ hcut.wellFormed hcut.alternate
  · intro p hp
    have hletters := (isWord_of_mem_placeholders h hp).1.letters
    obtain ⟨pieces, hcut, rfl⟩ := exists_pieces_of_scan h
    obtain ⟨kind, ordinal, hkind, -, rfl⟩ :=
      ofBlock_of_mem_placeholders _ _ _ hcut.wellFormed hp
    refine ⟨fun c hc => ?_, kind, ordinal, hkind, rfl⟩
    have hletter := hletters c hc
    rw [isWordLetter] at hletter
    rw [isNameChar, hletter, Bool.true_or]

/-- A placeholder is a run of the markup at most once. -/
theorem runs_markup_le_one {source : List Char} {s : Scanned}
    (hmark : ¬ Placeholder.mark <:+: source) (h : scan source = .ok s) {p : Placeholder}
    (hp : p ∈ placeholders s.fragments) : runs p.token.toList none s.markup ≤ 1 := by
  have hmarked := marked_of_scan hmark h
  obtain ⟨-, kind, ordinal, hkind, rfl⟩ := hmarked.token p hp
  have hnodup : (placeholders s.fragments).Nodup := by
    obtain ⟨pieces, hcut, rfl⟩ := exists_pieces_of_scan h
    exact nodup_placeholders_assemble _ _ _ hcut.wellFormed
  exact Nat.le_trans (hmarked.runs_le hkind ordinal none) (List.nodup_iff_count_le_one.mp hnodup _)

end Scanned

end Chtl
