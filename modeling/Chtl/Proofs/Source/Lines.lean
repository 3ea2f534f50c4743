import Chtl.Compile.Error
import Chtl.Proofs.Fragment.Tiling
import Chtl.Proofs.Source.LineIndex
import Mathlib.Algebra.Group.Nat.Defs

/-!
# Places and the lines they name

An offset lies in one line of a text, and the place of the offset is the number of that line with
the offset's distance from its start. A diagnostic finds the text of its line by cutting the text at
its line feeds and counting, and comes to the same line.
-/

set_option autoImplicit false
set_option linter.all false

namespace Chtl

open Text

/-- The line of a text that an offset is in, between what stands before it and what stands behind. A
line ends before its line feed, and the offset of a line feed is in the line that it ends. -/
structure LineAt (text : List Char) (p : Nat) (before line after : List Char) : Prop where
  split : text = before ++ (line ++ after)
  starts : before = [] ∨ before.getLast? = some '\n'
  unbroken : '\n' ∉ line
  ends : after = [] ∨ after.head? = some '\n'
  start_le : size before ≤ p
  le_end : p ≤ size before + size line

/-- Every offset of a text is in a line. -/
theorem exists_lineAt (text : List Char) {p : Nat} (hp : p ≤ size text) :
    ∃ before line after, LineAt text p before line after := by
  induction text generalizing p with
  | nil => exact ⟨[], [], [], ⟨rfl, .inl rfl, by simp, .inl rfl, Nat.zero_le _, hp⟩⟩
  | cons c cs ih =>
    rw [size_cons] at hp
    obtain ⟨before, line, after, h⟩ := ih (p := p - c.utf8Size) (by omega)
    have hstart := h.start_le
    have hend := h.le_end
    by_cases hfeed : c = '\n'
    · subst hfeed
      have hone : '\n'.utf8Size = 1 := by decide
      rw [hone] at hstart hend
      by_cases hzero : p = 0
      · exact ⟨[], [], '\n' :: cs, ⟨rfl, .inl rfl, by simp, .inr rfl, Nat.zero_le _, by omega⟩⟩
      · refine ⟨'\n' :: before, line, after, ⟨?_, .inr ?_, h.unbroken, h.ends, ?_, ?_⟩⟩
        · rw [List.cons_append, ← h.split]
        · rcases h.starts with rfl | hlast
          · rfl
          · rw [List.getLast?_cons, hlast]
            rfl
        · rw [size_cons, hone]
          omega
        · rw [size_cons, hone]
          omega
    · rcases h.starts with rfl | hlast
      · -- the line goes on with the character
        refine ⟨[], c :: line, after, ⟨?_, .inl rfl, ?_, h.ends, Nat.zero_le _, ?_⟩⟩
        · rw [h.split]
          rfl
        · exact List.mem_cons.not.mpr (not_or.mpr ⟨Ne.symm hfeed, h.unbroken⟩)
        · rw [size_nil] at hend ⊢
          rw [size_cons]
          omega
      · have hne : before ≠ [] := by
          rintro rfl
          cases hlast
        have hpos := size_pos hne
        refine ⟨c :: before, line, after, ⟨?_, .inr ?_, h.unbroken, h.ends, ?_, ?_⟩⟩
        · rw [List.cons_append, ← h.split]
        · rw [List.getLast?_cons, hlast]
          rfl
        · rw [size_cons]
          omega
        · rw [size_cons]
          omega

/-! ## Places -/

namespace Location

/-- The place behind a character. -/
def pass (here : Location) (c : Char) : Location :=
  if c = '\n' then ⟨here.line + 1, 1⟩ else ⟨here.line, here.column + c.utf8Size⟩

theorem advance_cons (here : Location) (c : Char) (cs : List Char) (n : Nat) :
    advance here (c.utf8Size + n) (c :: cs) = advance (here.pass c) n cs := by
  obtain ⟨m, hm⟩ := Nat.exists_eq_succ_of_ne_zero (Nat.ne_of_gt c.utf8Size_pos)
  rw [show c.utf8Size + n = m + n + 1 by omega, advance, if_neg (by omega), pass]
  by_cases hfeed : c = '\n'
  · have hone : '\n'.utf8Size = 1 := by decide
    rw [hfeed, hone] at hm
    rw [if_pos hfeed, if_pos hfeed, show m + n = n by omega]
  · rw [if_neg hfeed, if_neg hfeed, show m + n + 1 - c.utf8Size = n by omega]

/-- Going on past a text is going through it character by character first. -/
theorem advance_append (here : Location) (front rest : List Char) (n : Nat) :
    advance here (size front + n) (front ++ rest) = advance (front.foldl pass here) n rest := by
  induction front generalizing here with
  | nil => simp
  | cons c front ih =>
    rw [size_cons, Nat.add_assoc, List.cons_append, advance_cons, ih, List.foldl_cons]

theorem line_foldl_pass (here : Location) (cs : List Char) :
    (cs.foldl pass here).line = here.line + cs.count '\n' := by
  induction cs generalizing here with
  | nil => rfl
  | cons c cs ih =>
    rw [List.foldl_cons, ih, pass, List.count_cons]
    by_cases hfeed : c = '\n'
    · simp [hfeed, Nat.add_assoc, Nat.add_comm 1]
    · simp [hfeed]

/-- Behind a line feed a line starts. -/
theorem foldl_pass_start {before : List Char} (h : before = [] ∨ before.getLast? = some '\n') :
    before.foldl pass ⟨1, 1⟩ = ⟨1 + before.count '\n', 1⟩ := by
  rcases h with rfl | hlast
  · rfl
  · obtain ⟨front, rfl⟩ := List.getLast?_eq_some_iff.mp hlast
    rw [List.foldl_append, List.foldl_cons, List.foldl_nil, pass, if_pos rfl, line_foldl_pass,
      List.count_append, List.count_singleton_self, Nat.add_assoc]

/-- Within a line the columns are counted on. -/
theorem advance_line (here : Location) {line : List Char} (h : '\n' ∉ line) (after : List Char)
    {n : Nat} (hn : n ≤ size line) :
    advance here n (line ++ after) = ⟨here.line, here.column + n⟩ := by
  induction line generalizing here n with
  | nil =>
    obtain rfl : n = 0 := Nat.le_zero.mp hn
    rw [advance]
    rfl
  | cons c line ih =>
    obtain ⟨hfeed, hline⟩ := not_or.mp (List.mem_cons.not.mp h)
    rw [size_cons] at hn
    by_cases hinside : n < c.utf8Size
    · cases n with
      | zero =>
        rw [advance]
        rfl
      | succ n => rw [List.cons_append, advance, if_pos hinside]
    · obtain ⟨m, rfl⟩ := Nat.exists_eq_add_of_le (Nat.le_of_not_lt hinside)
      rw [List.cons_append, advance_cons, pass, if_neg (Ne.symm hfeed), ih _ hline (by omega),
        Nat.add_assoc]

end Location

/-! ## Line feeds among bytes -/

theorem count_utf8EncodeChar (c : Char) :
    (String.utf8EncodeChar c).count lineFeed = if c = '\n' then 1 else 0 := by
  by_cases hfeed : c = '\n'
  · subst hfeed
    rfl
  rw [if_neg hfeed]
  refine List.count_eq_zero.mpr fun hmem => ?_
  by_cases hascii : c.toNat < 128
  · rw [utf8EncodeChar_ascii hascii, List.mem_singleton] at hmem
    have hbyte := congrArg UInt8.toNat hmem
    rw [lineFeed, toNat_ofNat_ascii hascii, toNat_ofNat_ascii (by decide)] at hbyte
    exact hfeed (Char.toNat_inj.mp hbyte.symm)
  · have hhigh := le_of_mem_utf8EncodeChar (Nat.le_of_not_lt hascii) hmem
    rw [lineFeed, toNat_ofNat_ascii (by decide)] at hhigh
    exact absurd hhigh (by decide)

/-- The line feeds of a text are those of its bytes. -/
theorem count_bytes (cs : List Char) : (bytes cs).count lineFeed = cs.count '\n' := by
  induction cs with
  | nil => rfl
  | cons c cs ih =>
    rw [bytes_cons, List.count_append, count_utf8EncodeChar, ih, List.count_cons, Nat.add_comm]
    simp

theorem lineFeed_not_mem_bytes {cs : List Char} (h : '\n' ∉ cs) : lineFeed ∉ bytes cs := by
  rw [← List.count_eq_zero, count_bytes]
  exact List.count_eq_zero.mpr h

theorem getLast?_bytes_lineFeed {cs : List Char} (h : cs = [] ∨ cs.getLast? = some '\n') :
    bytes cs = [] ∨ (bytes cs).getLast? = some lineFeed := by
  rcases h with rfl | hlast
  · exact .inl rfl
  · obtain ⟨front, rfl⟩ := List.getLast?_eq_some_iff.mp hlast
    exact .inr (getLast?_bytes_concat front '\n')

namespace LineAt

variable {text before line after : List Char} {p : Nat}

/-- The place of an offset is its line and its distance from the start of it. -/
theorem ofOffset (h : LineAt text p before line after) :
    Location.ofOffset text p = ⟨1 + before.count '\n', 1 + (p - size before)⟩ := by
  have hstart := h.start_le
  have hend := h.le_end
  obtain ⟨n, rfl⟩ := Nat.exists_eq_add_of_le hstart
  rw [Location.ofOffset, h.split, Location.advance_append, Location.foldl_pass_start h.starts,
    Location.advance_line _ h.unbroken after (by omega), Nat.add_sub_cancel_left]

/-- The bytes up to the offset are those of the earlier lines and some of its own line. -/
theorem take_bytes (h : LineAt text p before line after) :
    ∃ own, (bytes text).take p = bytes before ++ own ∧ lineFeed ∉ own ∧
      own.length = p - size before := by
  have hstart := h.start_le
  have hend := h.le_end
  obtain ⟨n, rfl⟩ := Nat.exists_eq_add_of_le hstart
  refine ⟨(bytes line).take n, ?_, ?_, ?_⟩
  · rw [h.split, bytes_append, bytes_append, ← length_bytes before, List.take_length_add_append,
      List.take_append_of_le_length (by rw [length_bytes]; omega)]
  · exact fun hmem => lineFeed_not_mem_bytes h.unbroken (List.mem_of_mem_take hmem)
  · rw [List.length_take, length_bytes]
    omega

/-- The number of the line counts the line feeds before the offset, and the column the bytes behind
the last of them. -/
theorem ofOffset_bytes (h : LineAt text p before line after) :
    Location.ofOffset text p =
      ⟨1 + ((bytes text).take p).count lineFeed,
        1 + (((bytes text).take p).reverse.takeWhile (· != lineFeed)).length⟩ := by
  obtain ⟨own, htake, hown, hlength⟩ := h.take_bytes
  have hcount : ((bytes text).take p).count lineFeed = before.count '\n' := by
    rw [htake, List.count_append, count_bytes, List.count_eq_zero.mpr hown, Nat.add_zero]
  have hall : ∀ b ∈ own.reverse, (b != lineFeed) = true := by
    intro b hb
    rw [bne_iff_ne]
    rintro rfl
    exact hown (List.mem_reverse.mp hb)
  have hcolumn : ((bytes text).take p).reverse.takeWhile (· != lineFeed) = own.reverse := by
    rw [htake, List.reverse_append, List.takeWhile_append_of_pos hall]
    rcases getLast?_bytes_lineFeed h.starts with hnil | hlast
    · rw [hnil]
      simp
    · obtain ⟨front, hfront⟩ := List.getLast?_eq_some_iff.mp hlast
      rw [hfront, List.reverse_concat, List.takeWhile_cons_of_neg (by simp), List.append_nil]
  rw [h.ofOffset, hcount, hcolumn, List.length_reverse, hlength]

end LineAt

/-- An offset past the end stands for the end. -/
theorem Location.ofOffset_min (text : List Char) (offset : Nat) :
    ofOffset text (min offset (size text)) = ofOffset text offset := by
  rcases Nat.le_total offset (size text) with hle | hle
  · rw [Nat.min_eq_left hle]
  · obtain ⟨n, rfl⟩ := Nat.exists_eq_add_of_le hle
    have hend (here : Location) (m : Nat) : advance here m [] = here := by
      cases m <;> rfl
    have hpast (m : Nat) : ofOffset text (size text + m) = text.foldl pass ⟨1, 1⟩ := by
      have happend := advance_append ⟨1, 1⟩ text [] m
      rwa [List.append_nil, hend] at happend
    rw [Nat.min_eq_right hle, hpast, ← Nat.add_zero (size text), hpast]

/-! ## The text of a line -/

namespace Text

theorem splitOnChar_eq_splitOnP (p : Char → Bool) (cs : List Char) :
    splitOnChar p cs = cs.splitOnP p := by
  induction cs with
  | nil => rfl
  | cons c cs ih =>
    obtain ⟨part, parts, hparts⟩ := List.exists_cons_of_ne_nil (List.splitOnP_ne_nil p cs)
    rw [splitOnChar, ih, List.splitOnP_cons_eq_if_modifyHead, hparts]
    rfl

theorem length_splitOnP_lineFeed (cs : List Char) :
    (cs.splitOnP (· == '\n')).length = cs.count '\n' + 1 := by
  induction cs with
  | nil => rfl
  | cons c cs ih =>
    rw [List.splitOnP_cons_eq_if_modifyHead, List.count_cons]
    split_ifs <;> simp [ih]

/-- All but the last part of a text are lines with a line feed. -/
theorem lines_eq {cs last : List Char} {closed : List (List Char)}
    (h : cs.splitOnP (· == '\n') = closed ++ [last]) :
    lines cs = closed.map dropReturn ++ if last.isEmpty then [] else [last] := by
  rw [lines, splitOnChar_eq_splitOnP, h, List.reverse_append]
  simp [List.map_reverse]

end Text

/-- What is shown of a line is all of it but for one carriage return before its line feed. -/
def Shown (line after shown : List Char) : Prop :=
  if after = [] then shown = line
  else line = shown ++ ['\r'] ∨ shown = line ∧ line.getLast? ≠ some '\r'

theorem shown_dropReturn (line : List Char) {after : List Char} (h : after ≠ []) :
    Shown line after (dropReturn line) := by
  rw [Shown, if_neg h, dropReturn]
  split_ifs with hreturn
  · obtain ⟨front, rfl⟩ := List.getLast?_eq_some_iff.mp hreturn
    exact .inl (by rw [List.dropLast_concat])
  · exact .inr ⟨rfl, hreturn⟩

namespace LineAt

variable {text before line after : List Char} {p : Nat}

/-- As many parts of a text come before a line as line feeds do. -/
theorem splitOnP (h : LineAt text p before line after) :
    ∃ earlier, earlier.length = before.count '\n' ∧
      text.splitOnP (· == '\n') = earlier ++ (line ++ after).splitOnP (· == '\n') := by
  rcases h.starts with rfl | hlast
  · exact ⟨[], rfl, by rw [h.split]; rfl⟩
  · obtain ⟨front, rfl⟩ := List.getLast?_eq_some_iff.mp hlast
    refine ⟨front.splitOnP (· == '\n'), ?_, ?_⟩
    · rw [length_splitOnP_lineFeed, List.count_append, List.count_singleton_self]
    · rw [h.split, List.append_assoc, List.singleton_append, List.splitOnP_append_cons _ _ rfl]

/-- The line whose number counts the line feeds before it. -/
theorem lines (h : LineAt text p before line after) :
    (Text.lines text)[before.count '\n']? =
      if after = [] then if line = [] then none else some line else some (dropReturn line) := by
  obtain ⟨earlier, hlength, hparts⟩ := h.splitOnP
  have hplain : ∀ c ∈ line, (c == '\n') = false := by
    intro c hc
    rw [beq_eq_false_iff_ne]
    rintro rfl
    exact h.unbroken hc
  rw [← hlength]
  rcases h.ends with rfl | hfeed
  · rw [List.append_nil, List.splitOnP_eq_singleton hplain] at hparts
    rw [lines_eq hparts, if_pos rfl, List.getElem?_append_right (by simp), List.length_map,
      Nat.sub_self]
    cases line <;> rfl
  · obtain ⟨rest, rfl⟩ := List.head?_eq_some_iff.mp hfeed
    obtain ⟨later, last, hrest⟩ : ∃ later last, rest.splitOnP (· == '\n') = later ++ [last] :=
      ⟨_, _, (List.dropLast_concat_getLast (List.splitOnP_ne_nil _ rest)).symm⟩
    rw [List.splitOnP_append_cons_of_forall_mem hplain '\n' rfl, hrest, ← List.cons_append,
      ← List.append_assoc] at hparts
    rw [lines_eq hparts, if_neg (List.cons_ne_nil _ _),
      List.getElem?_append_left (by simp), List.map_append,
      List.getElem?_append_right (by simp), List.length_map, Nat.sub_self]
    rfl

/-- A line without text and without a line feed is the one behind the last line feed, or the whole
of an empty text. -/
theorem isEmpty_iff (h : LineAt text p before line after) :
    line = [] ∧ after = [] ↔ text = [] ∨ text.getLast? = some '\n' ∧ p = size text := by
  have hstart := h.start_le
  have hend := h.le_end
  constructor
  · rintro ⟨rfl, rfl⟩
    have htext : text = before := by rw [h.split, List.append_nil, List.append_nil]
    rw [size_nil] at hend
    rw [htext]
    rcases h.starts with hnil | hlast
    · exact .inl hnil
    · exact .inr ⟨hlast, by omega⟩
  · rintro (hnil | ⟨hlast, hp⟩)
    · have hparts := h.split.symm.trans hnil
      rw [List.append_eq_nil_iff, List.append_eq_nil_iff] at hparts
      exact hparts.2
    · have hafter : after = [] := by
        by_contra hne
        have hpos := size_pos hne
        rw [h.split, size_append, size_append] at hp
        omega
      refine ⟨?_, hafter⟩
      by_contra hne
      rw [h.split, hafter, List.append_nil, List.getLast?_append_of_ne_nil _ hne] at hlast
      exact h.unbroken (List.mem_of_getLast? hlast)

/-- A diagnostic at the place of an offset shows the line of the offset, unless that is empty and
nothing ends it. -/
theorem context (h : LineAt text p before line after) {d : Diagnostic}
    (hd : d.location = Location.ofOffset text p) :
    ((d.attachContext text).context = none ↔ line = [] ∧ after = []) ∧
      ∀ shown, (d.attachContext text).context = some shown → Shown line after shown.toList := by
  have hcontext : (d.attachContext text).context =
      (if after = [] then if line = [] then none else some line
        else some (dropReturn line)).map String.ofList := by
    rw [Diagnostic.attachContext, hd, h.ofOffset, Nat.add_sub_cancel_left, h.lines]
  rw [hcontext]
  split_ifs with hafter hline
  · exact ⟨by simp [hafter, hline], by simp⟩
  · refine ⟨by simp [hline], ?_⟩
    rintro shown hshown
    rw [← Option.some.inj hshown, String.toList_ofList, Shown, if_pos hafter]
  · refine ⟨by simp [hafter], ?_⟩
    rintro shown hshown
    rw [← Option.some.inj hshown, String.toList_ofList]
    exact shown_dropReturn line hafter

/-- In a text whose places have numbers of 32 bits, the index of its lines gives the same place. -/
theorem location?_ofBytes {offset : Nat}
    (h : LineAt text (min offset (size text)) before line after) (hsize : size text < 2 ^ 32 - 1) :
    (LineIndex.ofBytes (bytes text)).location? offset = some (Location.ofOffset text offset) := by
  have hbytes : bytes text = bytes before ++ (bytes line ++ bytes after) := by
    rw [h.split, bytes_append, bytes_append]
  have hp : min offset (size text) =
      min offset (bytes before ++ (bytes line ++ bytes after)).length := by
    rw [← hbytes, length_bytes]
  have hle : (bytes before).length ≤ min offset (size text) := by
    rw [length_bytes]
    exact h.start_le
  have hge : min offset (size text) ≤ (bytes before).length + (bytes line).length := by
    rw [length_bytes, length_bytes]
    exact h.le_end
  have hcount : (bytes before).count lineFeed + 1 < 2 ^ 32 := by
    have := List.count_le_length (a := lineFeed) (l := bytes before)
    omega
  have hcolumn : min offset (size text) - (bytes before).length + 1 < 2 ^ 32 := by omega
  have hfound := LineIndex.location?_ofBytes (getLast?_bytes_lineFeed h.starts)
    (lineFeed_not_mem_bytes h.unbroken) hp hle hge
  rw [← hbytes, UInt32.toNat_ofNat_of_lt' hcount, UInt32.toNat_ofNat_of_lt' hcolumn] at hfound
  rw [hfound, ← Location.ofOffset_min, h.ofOffset, count_bytes, length_bytes,
    Nat.add_comm _ 1, Nat.add_comm _ 1]

end LineAt

/-- Every report of a fault is at the place of an offset of the source, and shows its line. -/
theorem CompileError.diagnostic_shows (e : CompileError) (file : String) (source : List Char) :
    ∃ p before line after, LineAt source p before line after ∧
      (e.diagnostic file source).location = .ofOffset source p ∧
      ((e.diagnostic file source).context = none ↔ line = [] ∧ after = []) ∧
      ∀ shown, (e.diagnostic file source).context = some shown → Shown line after shown.toList := by
  obtain ⟨offset, hplace⟩ : ∃ offset,
      (e.report file source).location = .ofOffset source offset := by
    cases e <;> exact ⟨_, rfl⟩
  obtain ⟨before, line, after, h⟩ := exists_lineAt source (Nat.min_le_right offset (size source))
  rw [← Location.ofOffset_min] at hplace
  exact ⟨_, before, line, after, h, hplace, h.context hplace⟩

/-- What is known of the place of an offset and of the line it names. -/
structure NamesLine (source : List Char) (offset : Nat) (before line after : List Char) : Prop where
  lineAt : LineAt source (min offset (size source)) before line after
  index : (LineIndex.ofBytes (bytes source)).location? offset = some (.ofOffset source offset)
  number : (Location.ofOffset source offset).line =
    1 + ((bytes source).take (min offset (size source))).count lineFeed
  column : (Location.ofOffset source offset).column =
    1 + (((bytes source).take (min offset (size source))).reverse.takeWhile
      (· != lineFeed)).length
  /-- The line is shown unless it is the empty one behind the last line feed, or of no text. -/
  shown : ∀ d : Diagnostic, d.location = .ofOffset source offset →
    ((d.attachContext source).context = none ↔
      source = [] ∨ source.getLast? = some '\n' ∧ min offset (size source) = size source) ∧
    ∀ text, (d.attachContext source).context = some text → Shown line after text.toList
  isEmpty_iff : line = [] ∧ after = [] ↔
    source = [] ∨ source.getLast? = some '\n' ∧ min offset (size source) = size source

/-- The place of an offset counts line feeds and the bytes behind the last one, as the index of
lines has it, and a diagnostic at that place shows the line that the offset is in. -/
theorem exists_namesLine {source : List Char} (hsize : size source < 2 ^ 32 - 1) (offset : Nat) :
    ∃ before line after, NamesLine source offset before line after := by
  obtain ⟨before, line, after, h⟩ := exists_lineAt source (Nat.min_le_right offset (size source))
  refine ⟨before, line, after, h, h.location?_ofBytes hsize, ?_, ?_, ?_, h.isEmpty_iff⟩
  · rw [← Location.ofOffset_min, h.ofOffset_bytes]
  · rw [← Location.ofOffset_min, h.ofOffset_bytes]
  · intro d hd
    rw [← Location.ofOffset_min] at hd
    rw [← h.isEmpty_iff]
    exact h.context hd

/-- An offset inside a wide character, in a line between one with a carriage return and the end. -/
theorem exists_namesLine_wide :
    ∃ source, source = "a\r\né\n".toList ∧ size source < 2 ^ 32 - 1 ∧
      Location.ofOffset source 4 = ⟨2, 2⟩ ∧
      ∃ before line after, NamesLine source 4 before line after := by
  obtain ⟨source, hsource⟩ : ∃ source, source = "a\r\né\n".toList := ⟨_, rfl⟩
  have hsize : size source < 2 ^ 32 - 1 := by
    rw [hsource, String.toList_ofList]
    decide
  have hplace : Location.ofOffset source 4 = ⟨2, 2⟩ := by
    rw [hsource, String.toList_ofList]
    decide
  exact ⟨source, hsource, hsize, hplace, exists_namesLine hsize 4⟩

end Chtl
