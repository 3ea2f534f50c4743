import Chtl.Proofs.Fragment.Passes
import Chtl.Proofs.Fragment.Tiling
import Chtl.Proofs.Output.Restore

/-!
# Blocks end by themselves

Where a block ends depends on the block alone. No string, comment or look at the next character goes
beyond the brace that closes it, so the same brace closes it whatever follows. A block that is cut
out of its source and cut again, with nothing before it and nothing behind it, is itself.
-/

set_option autoImplicit false
set_option linter.all false

namespace Chtl

open Text

/-! ## What follows does not matter -/

namespace Text

theorem lineLength_append {front rest : List Char} (h : lineLength (front ++ rest) < front.length)
    (more : List Char) : lineLength (front ++ more) = lineLength (front ++ rest) := by
  have hinside : (front.takeWhile (· != '\n')).length ≠ front.length := by
    intro hall
    rw [lineLength, List.takeWhile_append, if_pos hall, List.length_append] at h
    omega
  rw [lineLength, lineLength, List.takeWhile_append, List.takeWhile_append, if_neg hinside,
    if_neg hinside]

/-- What is found in front of the end of `front` is found in `front` alone. -/
theorem find?_front {needle front rest : List Char} {n : Nat}
    (h : find? needle (front ++ rest) = some n) (hn : n + needle.length ≤ front.length) :
    find? needle front = some n := by
  have hfound := drop_of_find? h
  rw [List.drop_append_of_le_length (by omega)] at hfound
  have hprefix : needle <+: front.drop n :=
    List.prefix_of_prefix_length_le hfound (List.prefix_append _ _) (by
      rw [List.length_drop]
      omega)
  have hpart : needle <:+: front := hprefix.isInfix.trans (List.drop_suffix n front).isInfix
  obtain ⟨m, hm⟩ := Option.isSome_iff_exists.mp (Output.contains_of_part hpart)
  rw [(find?_append hm rest).1] at h
  rw [hm, h]

theorem lengthThrough_append {needle front rest : List Char}
    (h : lengthThrough needle (front ++ rest) < front.length) (more : List Char) :
    lengthThrough needle (front ++ more) = lengthThrough needle (front ++ rest) := by
  cases hfind : find? needle (front ++ rest) with
  | none =>
    simp only [lengthThrough, hfind, List.length_append] at h
    omega
  | some n =>
    simp only [lengthThrough, hfind] at h
    have hfront := find?_front hfind (Nat.le_of_lt h)
    simp only [lengthThrough, (find?_append hfront more).1, hfind]

end Text

namespace Piece

theorem stringLength_cons {quote c : Char} (h : c ≠ '\\') (cs : List Char) :
    stringLength quote (c :: cs) = if c = quote then 1 else 1 + stringLength quote cs := by
  cases cs <;> simp [stringLength, h]

theorem stringLength_append {quote : Char} {front rest : List Char}
    (h : stringLength quote (front ++ rest) < front.length) (more : List Char) :
    stringLength quote (front ++ more) = stringLength quote (front ++ rest) := by
  fun_induction stringLength quote front with
  | case1 => cases h
  | case2 =>
    -- the backslash takes the next character along, so the string goes on behind `front`
    cases rest <;> simp [stringLength] at h
  | case3 c cs ih =>
    simp only [List.cons_append, stringLength, List.length_cons] at h ⊢
    rw [ih (by omega)]
  | case4 cs hend hescape =>
    have hback := ne_of_not_followed hend hescape
    rw [List.cons_append, List.cons_append, stringLength_cons hback, stringLength_cons hback,
      if_pos rfl, if_pos rfl]
  | case5 c cs hend hescape hc ih =>
    have hback := ne_of_not_followed hend hescape
    rw [List.cons_append, stringLength_cons hback, if_neg hc, List.length_cons] at h
    rw [List.cons_append, List.cons_append, stringLength_cons hback, stringLength_cons hback,
      if_neg hc, if_neg hc, ih (by omega)]

/-- If what is left of a body ends inside `front`, it ends there whatever follows. -/
theorem later_append {kind : FragmentKind} {depth j n : Nat} {front rest : List Char}
    (more : List Char) (hn : n < front.length + 1)
    (h : (bodyLength? kind depth ((front ++ rest).drop j)).map (· + (1 + j)) = some n)
    (ih : ∀ {own : List Char} {m : Nat}, m < own.length →
      bodyLength? kind depth ((front ++ rest).drop j) = some m →
      (front ++ rest).drop j = own ++ rest →
      bodyLength? kind depth (own ++ more) = some m) :
    j < front.length ∧
      (bodyLength? kind depth ((front ++ more).drop j)).map (· + (1 + j)) = some n := by
  obtain ⟨m, hm, rfl⟩ := Option.map_eq_some_iff.mp h
  have hj : j < front.length := by omega
  have hlength : m < (front.drop j).length := by
    rw [List.length_drop]
    omega
  have hown := ih hlength hm (List.drop_append_of_le_length (by omega))
  rw [List.drop_append_of_le_length (by omega), hown]
  exact ⟨hj, rfl⟩

theorem exists_front {c : Char} {tail front rest : List Char} {n : Nat} (hn : n < front.length)
    (h : c :: tail = front ++ rest) : ∃ own, front = c :: own ∧ tail = own ++ rest := by
  cases front with
  | nil => cases hn
  | cons d own =>
    obtain ⟨rfl, rfl⟩ := List.cons.inj h
    exact ⟨own, rfl, rfl⟩

/-- The brace that closes a body closes it whatever follows. -/
theorem bodyLength?_append {kind : FragmentKind} {depth : Nat} {front rest : List Char} {n : Nat}
    (h : bodyLength? kind depth (front ++ rest) = some n) (hn : n < front.length)
    (more : List Char) : bodyLength? kind depth (front ++ more) = some n := by
  obtain ⟨cs, hcs⟩ : ∃ cs, cs = front ++ rest := ⟨_, rfl⟩
  -- the character behind a slash is still one of `front`
  have hhead {own : List Char} {j : Nat} (hj : j < own.length) :
      (own ++ more).head? = (own ++ rest).head? := by
    have hne : own ≠ [] := List.ne_nil_of_length_pos (Nat.zero_lt_of_lt hj)
    rw [List.head?_append_of_ne_nil _ hne, List.head?_append_of_ne_nil _ hne]
  rw [← hcs] at h
  fun_induction bodyLength? kind depth cs generalizing front n with
  | case1 => cases h
  | case2 depth c tail hquote k =>
    rename_i ih
    obtain ⟨own, rfl, rfl⟩ := exists_front hn hcs
    obtain ⟨hinside, hmore⟩ := later_append more hn h ih
    rw [List.cons_append, bodyLength?, if_pos hquote, stringLength_append hinside]
    exact hmore
  | case3 depth c tail hquote hstar k =>
    rename_i ih
    obtain ⟨own, rfl, rfl⟩ := exists_front hn hcs
    rw [show 2 + k = 1 + (1 + k) by omega] at h
    obtain ⟨hinside, hmore⟩ := later_append more hn h ih
    have hstarred {behind : List Char} : (own ++ behind).drop 1 = own.drop 1 ++ behind :=
      List.drop_append_of_le_length (by omega)
    have hsame : lengthThrough ['*', '/'] ((own ++ more).drop 1) = k := by
      have hk : k < (own.drop 1).length := by
        rw [List.length_drop]
        omega
      rw [show k = lengthThrough ['*', '/'] ((own ++ rest).drop 1) from rfl, hstarred] at hk ⊢
      rw [hstarred]
      exact lengthThrough_append hk more
    rw [List.cons_append, bodyLength?, if_neg hquote, if_pos (by rwa [hhead hinside]), hsame]
    simpa only [show 2 + k = 1 + (1 + k) by omega] using hmore
  | case4 depth c tail hquote hstar hline k =>
    rename_i ih
    obtain ⟨own, rfl, rfl⟩ := exists_front hn hcs
    obtain ⟨hinside, hmore⟩ := later_append more hn h ih
    rw [List.cons_append, bodyLength?, if_neg hquote, if_neg (by rwa [hhead hinside]),
      if_pos (by rwa [hhead hinside]), lineLength_append hinside]
    exact hmore
  | case5 depth tail hquote hstar hline ih =>
    obtain ⟨own, rfl, rfl⟩ := exists_front hn hcs
    obtain ⟨hinside, hmore⟩ := later_append (j := 0) more hn h ih
    rw [List.cons_append, bodyLength?, if_neg hquote, if_neg (by rwa [hhead hinside]),
      if_neg (by rwa [hhead hinside]), if_pos rfl]
    exact hmore
  | case6 tail =>
    obtain ⟨own, rfl, rfl⟩ := exists_front hn hcs
    cases h
    simp [bodyLength?]
  | case7 depth tail hdepth hquote hstar hline hopen ih =>
    obtain ⟨own, rfl, rfl⟩ := exists_front hn hcs
    obtain ⟨hinside, hmore⟩ := later_append (j := 0) more hn h ih
    rw [List.cons_append, bodyLength?, if_neg hquote, if_neg (by rwa [hhead hinside]),
      if_neg (by rwa [hhead hinside]), if_neg hopen, if_pos rfl, if_neg hdepth]
    exact hmore
  | case8 depth c tail hquote hstar hline hopen hclose ih =>
    obtain ⟨own, rfl, rfl⟩ := exists_front hn hcs
    obtain ⟨hinside, hmore⟩ := later_append (j := 0) more hn h ih
    rw [List.cons_append, bodyLength?, if_neg hquote, if_neg (by rwa [hhead hinside]),
      if_neg (by rwa [hhead hinside]), if_neg hopen, if_neg hclose]
    exact hmore

/-! ## Blocks on their own -/

/-- The brace behind the body of a block closes it. -/
def Closed : Piece → Prop
  | markup _ => True
  | block kind _ body => bodyLength? kind 0 (body ++ ['}']) = some body.length

theorem closed_block {kind : FragmentKind} {cs : List Char} {n : Nat}
    (h : bodyLength? kind 0 cs = some n) (opening : List Char) :
    (block kind opening (cs.take n)).Closed := by
  have hbrace := drop_bodyLength? h
  have hn : n < cs.length := by
    by_contra hle
    rw [List.drop_eq_nil_of_le (Nat.not_lt.mp hle)] at hbrace
    cases hbrace
  have hlength : (cs.take n).length = n := List.length_take_of_le (Nat.le_of_lt hn)
  have hsplit : cs = (cs.take n ++ ['}']) ++ cs.drop (n + 1) := by
    conv_lhs => rw [← List.take_append_drop n cs, hbrace]
    simp
  rw [hsplit] at h
  have hown := bodyLength?_append h (by simp [hlength]) []
  rw [List.append_nil] at hown
  rw [Closed, hlength, hown]

theorem closed_consMarkup {text : List Char} {pieces : List Piece}
    (h : ∀ p ∈ pieces, p.Closed) : ∀ p ∈ consMarkup text pieces, p.Closed := by
  rcases pieces with _ | ⟨_ | ⟨kind, opening, body⟩, pieces⟩
  · cases text <;> simp [consMarkup, Closed]
  · simpa [consMarkup, Closed] using h
  · cases text with
    | nil => exact h
    | cons c text => simpa [consMarkup, Closed] using h

theorem closed_pass {text : List Char} {found : Except Unclosed (List Piece)} {pieces : List Piece}
    (h : found.map (consMarkup text) = .ok pieces)
    (ih : ∀ more, found = .ok more → ∀ p ∈ more, p.Closed) : ∀ p ∈ pieces, p.Closed := by
  obtain ⟨more, hm, rfl⟩ := map_eq_ok_iff.mp h
  exact closed_consMarkup (ih more hm)

theorem closed_of_cutFrom {previous : Option Char} {offset : Nat} {cs : List Char}
    {pieces : List Piece} (h : cutFrom previous offset cs = .ok pieces) :
    ∀ p ∈ pieces, p.Closed := by
  fun_induction cutFrom previous offset cs generalizing pieces with
  | case1 =>
    cases h
    simp
  | case2 previous offset c rest pass =>
    rename_i _ ih
    exact closed_pass h fun more hm => ih _ hm
  | case3 previous offset c rest pass =>
    rename_i _ ih
    exact closed_pass h fun more hm => ih _ hm
  | case4 previous offset c rest pass =>
    rename_i _ ih
    exact closed_pass h fun more hm => ih _ hm
  | case5 => cases h
  | case6 previous offset c rest =>
    rename_i kind m hopening opening inner n hbody body _ ih
    obtain ⟨more, hm, rfl⟩ := map_eq_ok_iff.mp h
    exact List.forall_mem_cons.mpr ⟨closed_block hbody opening, ih hm⟩

theorem keyword_of_opens {kind : FragmentKind} {opening : List Char} (h : Opens kind opening) :
    ∃ letters, opening = 's' :: letters := by
  obtain ⟨word, blanks, hword, -, rfl⟩ := h
  cases kind with
  | markup => cases hword
  | style =>
    cases hword
    exact ⟨_, rfl⟩
  | script =>
    cases hword
    exact ⟨_, rfl⟩

/-- An opening opens a block at the start of a text, whatever follows. -/
theorem opening?_of_opens {kind : FragmentKind} {opening : List Char} (h : Opens kind opening)
    (more : List Char) : opening? none (opening ++ more) = some (kind, opening.length) := by
  obtain ⟨word, blanks, hword, hblanks, rfl⟩ := h
  have hdrop : (blanks ++ '{' :: more).dropWhile isAsciiBlank = '{' :: more := by
    rw [List.dropWhile_append_of_pos hblanks, List.dropWhile_cons_of_neg (by decide)]
  have hhead : (blanks ++ '{' :: more).head?.any touchesKeyword = false := by
    cases blanks with
    | nil => rfl
    | cons b blanks => exact not_touchesKeyword_of_isAsciiBlank (hblanks b List.mem_cons_self)
  have hafter {word : List Char} : after? word (word ++ (blanks ++ '{' :: more)) =
      some (blanks ++ '{' :: more) := after?_eq_some_iff.mpr rfl
  have htext : word ++ (blanks ++ ['{']) ++ more = word ++ (blanks ++ '{' :: more) := by simp
  have hlength : (word ++ (blanks ++ '{' :: more)).length - ('{' :: more).length + 1 =
      (word ++ (blanks ++ ['{'])).length := by
    simp only [List.length_append, List.length_cons, List.length_nil]
    omega
  rw [htext, opening?]
  cases kind with
  | markup => cases hword
  | style =>
    cases hword
    simp only [hafter, hhead, hdrop, hlength, Option.any_none, List.head?_cons, Bool.false_eq_true,
      if_false, if_true]
  | script =>
    cases hword
    have hother : after? "style".toList ("script".toList ++ (blanks ++ '{' :: more)) = none := rfl
    simp only [hafter, hother, hhead, hdrop, hlength, Option.map_some, Option.any_none,
      List.head?_cons, Bool.false_eq_true, if_false, if_true]

/-- A block on its own is cut into itself. -/
theorem cut_block {kind : FragmentKind} {opening body : List Char} (ho : Opens kind opening)
    (hc : (block kind opening body).Closed) :
    cut (opening ++ (body ++ ['}'])) = .ok [block kind opening body] := by
  have hopening := opening?_of_opens ho (body ++ ['}'])
  obtain ⟨letters, rfl⟩ := keyword_of_opens ho
  have hcomment : (if opensComment none = true then
      commentLength? ('s' :: (letters ++ (body ++ ['}']))) else none) = none := by
    rw [commentLength?_eq_none (by decide) (by decide), ite_self]
  rw [List.cons_append] at hopening
  rw [cut, List.cons_append, cutFrom, if_neg (by simp), hcomment]
  dsimp only
  rw [hopening]
  have hclosed : bodyLength? kind 0 (body ++ ['}']) = some body.length := hc
  have hbehind : (body ++ ['}']).drop (body.length + 1) = [] :=
    List.drop_eq_nil_of_le (by simp)
  simp only [List.length_cons, Nat.add_sub_cancel, List.take_left, List.drop_left, hclosed, hbehind]
  rw [cutFrom]
  rfl

end Piece

namespace Scanned

theorem closed_of_mem_assemble (nonce : String) (ordinal offset : Nat) {pieces : List Piece}
    (h : ∀ p ∈ pieces, p.Closed) {f : Fragment} (hf : f ∈ assemble nonce ordinal offset pieces)
    (hk : f.kind ≠ .markup) (opening : List Char) :
    (Piece.block f.kind opening f.text.toList).Closed := by
  induction pieces generalizing ordinal offset with
  | nil => cases hf
  | cons p ps ih =>
    obtain ⟨hp, hps⟩ := List.forall_mem_cons.mp h
    cases p with
    | markup text =>
      rcases List.mem_cons.mp hf with rfl | hf
      · exact absurd rfl hk
      · exact ih _ _ hps hf
    | block kind own body =>
      rcases List.mem_cons.mp hf with rfl | hf
      · simpa [Piece.Closed] using hp
      · exact ih _ _ hps hf

theorem closed_of_scan {source : List Char} {s : Scanned} (h : scan source = .ok s) {f : Fragment}
    (hf : f ∈ s.fragments) (hk : f.kind ≠ .markup) (opening : List Char) :
    (Piece.block f.kind opening f.text.toList).Closed := by
  unfold scan at h
  split at h
  · rename_i pieces hcut
    cases h
    exact closed_of_mem_assemble _ _ _ (Piece.closed_of_cutFrom hcut) hf hk opening
  · cases h

/-- A block on its own is one fragment. -/
theorem scan_block {kind : FragmentKind} {opening body : List Char} (ho : Piece.Opens kind opening)
    (hc : (Piece.block kind opening body).Closed) :
    ∃ p, scan (opening ++ (body ++ ['}'])) =
      .ok ⟨[⟨kind, String.ofList body, ⟨0, size opening + size body + 1⟩,
        ⟨size opening, size opening + size body⟩, some p⟩], size opening + size body + 1⟩ := by
  have hsize : size (opening ++ (body ++ ['}'])) = size opening + size body + 1 := by
    rw [size_append, size_append, Nat.add_assoc]
    rfl
  refine ⟨.ofBlock kind (unitNonce (opening ++ (body ++ ['}']))) 0, ?_⟩
  rw [scan, Piece.cut_block ho hc, hsize]
  simp only [assemble, Nat.zero_add]

/-- A block that is scanned on its own is one fragment, the block itself moved to the start. -/
theorem scan_stretch_of_block {source : List Char} {s : Scanned} (h : scan source = .ok s)
    {f : Fragment} (hf : f ∈ s.fragments) (hk : f.kind ≠ .markup) :
    Occupies source (stretch source f.range) f.range ∧
      ∃ g, scan (stretch source f.range) = .ok ⟨[g], f.range.size⟩ ∧ g.kind = f.kind ∧
        g.text = f.text ∧ g.range = ⟨0, f.range.size⟩ ∧
        g.bodyRange.shift f.range.start = f.bodyRange := by
  have hat := at_of_scan h hf
  rw [if_neg hk] at hat
  obtain ⟨opening, hopens, hwhole, hstart, hstop, hbody⟩ := hat
  have hinner : f.bodyRange.stop = f.bodyRange.start + size f.text.toList := by
    obtain ⟨before, after, -, hbegin, hend⟩ := hbody
    omega
  have hsize : f.range.size = size opening + size f.text.toList + 1 := by
    rw [Span.size]
    omega
  obtain ⟨p, hscan⟩ := scan_block hopens (closed_of_scan h hf hk opening)
  rw [stretch_of_occupies hwhole, hsize]
  refine ⟨hwhole, _, hscan, rfl, String.ofList_toList, rfl, ?_⟩
  show (⟨size opening + f.range.start, size opening + size f.text.toList + f.range.start⟩ : Span) =
    ⟨f.bodyRange.start, f.bodyRange.stop⟩
  congr 1 <;> omega

/-- Braces in a string and in a comment, and an escaped quote, in a script that markup follows. -/
theorem scan_stretch_of_block_quoted :
    ∃ source s f, source = "p script \x7b'\\'\x7d' // \x7d\n \x7b\x7d\x7d b \x7b\x7d".toList ∧
      scan source = .ok s ∧ f ∈ s.fragments ∧ f.kind ≠ .markup ∧ f.range = ⟨2, 25⟩ ∧
      Occupies source (stretch source f.range) f.range ∧
      ∃ g, scan (stretch source f.range) = .ok ⟨[g], f.range.size⟩ ∧ g.kind = f.kind ∧
        g.text = f.text ∧ g.range = ⟨0, f.range.size⟩ ∧
        g.bodyRange.shift f.range.start = f.bodyRange := by
  obtain ⟨source, hsource⟩ : ∃ source, source =
      "p script \x7b'\\'\x7d' // \x7d\n \x7b\x7d\x7d b \x7b\x7d".toList := ⟨_, rfl⟩
  have hscan : (scan source).toOption.map (fun s => s.fragments.map fun f => (f.kind, f.range)) =
      some [(.markup, ⟨0, 2⟩), (.script, ⟨2, 25⟩), (.markup, ⟨25, 30⟩)] := by
    rw [hsource, String.toList_ofList]
    decide +kernel
  cases hs : scan source with
  | error e =>
    rw [hs] at hscan
    cases hscan
  | ok s =>
    rw [hs] at hscan
    have hmem : (FragmentKind.script, (⟨2, 25⟩ : Span)) ∈
        s.fragments.map fun f => (f.kind, f.range) := by
      rw [show s.fragments.map _ = _ from Option.some.inj hscan]
      simp
    obtain ⟨f, hf, hfield⟩ := List.mem_map.mp hmem
    obtain ⟨hkind, hrange⟩ := Prod.mk.inj hfield
    have hblock : f.kind ≠ .markup := by
      rw [hkind]
      decide
    exact ⟨source, s, f, hsource, hs, hf, hblock, hrange, scan_stretch_of_block hs hf hblock⟩

end Scanned

end Chtl
