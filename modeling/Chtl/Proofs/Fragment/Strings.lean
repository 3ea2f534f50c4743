import Chtl.Expr.Token
import Chtl.Proofs.Markup.Groups
import Chtl.Proofs.Script.Closing
import Chtl.Proofs.Text.Paired

/-!
# Where strings end

A string is passed over by the cutting of blocks, by the reading of scripts and markup, and by the
tokens of expressions. The first two go byte by byte: behind a backslash they skip two bytes and may
come to stand inside a character. The bytes that are left of it are neither quotes nor backslashes,
so they are back in step with the others at its end. All of them stop behind the first quote that
no backslash takes along, and at the end of the text when there is none. Only expressions insist on
that quote.
-/

set_option autoImplicit false
set_option linter.all false

namespace Chtl

open Text

/-! ## Byte by byte -/

/-- The offset behind a string, read on from an offset in it. A backslash takes the next byte along,
and a string that is never closed runs to the end. -/
def stringEndFrom (quote : UInt8) (bs : List UInt8) (i : Nat) : Nat :=
  if h : i < bs.length then
    if bs[i] = UInt8.ofNat '\\'.toNat then stringEndFrom quote bs (i + 2)
    else if bs[i] = quote then i + 1
    else stringEndFrom quote bs (i + 1)
  else bs.length
termination_by bs.length - i

/-- The offset behind the string whose opening quote stands at an offset. -/
def stringEnd? (bs : List UInt8) (i : Nat) : Option Nat :=
  bs[i]?.map fun quote => stringEndFrom quote bs (i + 1)

/-- The number of bytes of a string behind its opening quote; `escaped` says that a backslash stands
before the bytes. -/
def stringSize (quote : UInt8) : (escaped : Bool) → List UInt8 → Nat
  | _, [] => 0
  | true, _ :: bs => 1 + stringSize quote false bs
  | false, b :: bs =>
    if b = UInt8.ofNat '\\'.toNat then 1 + stringSize quote true bs
    else if b = quote then 1
    else 1 + stringSize quote false bs

theorem stringEndFrom_eq {quote : UInt8} {bs : List UInt8} {i : Nat} (hi : i ≤ bs.length) :
    stringEndFrom quote bs i = i + stringSize quote false (bs.drop i) := by
  fun_induction stringEndFrom quote bs i with
  | case1 i h hback ih =>
    rw [List.drop_eq_getElem_cons h, stringSize, if_pos hback]
    by_cases hlast : i + 1 < bs.length
    · rw [ih hlast, List.drop_eq_getElem_cons hlast, stringSize, ← Nat.add_assoc, ← Nat.add_assoc]
    · -- the backslash is the last byte, and two bytes on is behind the end
      rw [stringEndFrom, dif_neg (by omega), List.drop_eq_nil_of_le (by omega), stringSize]
      omega
  | case2 i h hback hquote =>
    rw [List.drop_eq_getElem_cons h, stringSize, if_neg hback, if_pos hquote]
  | case3 i h hback hquote ih =>
    rw [List.drop_eq_getElem_cons h, stringSize, if_neg hback, if_neg hquote, ih h]
    exact Nat.add_assoc i 1 _
  | case4 i h =>
    rw [List.drop_eq_nil_of_le (by omega), stringSize]
    omega

/-! ## Characters in a row of bytes -/

theorem ofNat_toNat_ne {c d : Char} (hc : c.toNat < 128) (hd : d.toNat < 128) (h : c ≠ d) :
    UInt8.ofNat c.toNat ≠ UInt8.ofNat d.toNat := by
  intro heq
  have hnat := congrArg UInt8.toNat heq
  rw [toNat_ofNat_ascii hc, toNat_ofNat_ascii hd] at hnat
  exact h (Char.toNat_inj.mp hnat)

section

variable {quote : Char}

/-- Bytes of characters outside ASCII are passed over one by one. -/
theorem stringSize_high (hquote : quote.toNat < 128) {high : List UInt8}
    (hhigh : ∀ b ∈ high, 128 ≤ b.toNat) (bs : List UInt8) :
    stringSize (UInt8.ofNat quote.toNat) false (high ++ bs) =
      high.length + stringSize (UInt8.ofNat quote.toNat) false bs := by
  induction high with
  | nil => simp
  | cons b high ih =>
    obtain ⟨hb, hrest⟩ := List.forall_mem_cons.mp hhigh
    have hne {x : Char} (hx : x.toNat < 128) : b ≠ UInt8.ofNat x.toNat := by
      intro heq
      rw [heq, toNat_ofNat_ascii hx] at hb
      omega
    rw [List.cons_append, stringSize, if_neg (hne (by decide)), if_neg (hne hquote), ih hrest,
      List.length_cons]
    omega

/-- A character that is neither the quote nor a backslash is passed over. -/
theorem stringSize_char (hquote : quote.toNat < 128) {c : Char} (hback : c ≠ '\\') (hc : c ≠ quote)
    (bs : List UInt8) :
    stringSize (UInt8.ofNat quote.toNat) false (String.utf8EncodeChar c ++ bs) =
      c.utf8Size + stringSize (UInt8.ofNat quote.toNat) false bs := by
  rw [← String.length_utf8EncodeChar c]
  by_cases hascii : c.toNat < 128
  · rw [utf8EncodeChar_ascii hascii, List.singleton_append, stringSize,
      if_neg (ofNat_toNat_ne hascii (by decide) hback), if_neg (ofNat_toNat_ne hascii hquote hc)]
    rfl
  · exact stringSize_high hquote
      (fun b hb => le_of_mem_utf8EncodeChar (Nat.le_of_not_lt hascii) hb) bs

/-- Behind a backslash one byte is skipped, and what is left of its character is passed over. -/
theorem stringSize_pair (hquote : quote.toNat < 128) (c : Char) (bs : List UInt8) :
    stringSize (UInt8.ofNat quote.toNat) false
        (UInt8.ofNat '\\'.toNat :: (String.utf8EncodeChar c ++ bs)) =
      1 + c.utf8Size + stringSize (UInt8.ofNat quote.toNat) false bs := by
  obtain ⟨first, left, hbytes⟩ := List.exists_cons_of_ne_nil (String.utf8EncodeChar_ne_nil (c := c))
  have hleft : ∀ b ∈ left, 128 ≤ b.toNat := by
    intro b hb
    by_cases hascii : c.toNat < 128
    · rw [utf8EncodeChar_ascii hascii] at hbytes
      rw [← (List.cons.inj hbytes).2] at hb
      cases hb
    · exact le_of_mem_utf8EncodeChar (Nat.le_of_not_lt hascii)
        (hbytes ▸ List.mem_cons_of_mem first hb)
  have hsize : c.utf8Size = left.length + 1 := by
    rw [← String.length_utf8EncodeChar c, hbytes, List.length_cons]
  rw [hbytes, List.cons_append, stringSize, if_pos rfl, stringSize,
    stringSize_high hquote hleft, hsize]
  omega

/-- Byte by byte a string has the size that it has character by character. -/
theorem stringSize_bytes (hquote : quote.toNat < 128) (cs : List Char) :
    stringSize (UInt8.ofNat quote.toNat) false (bytes cs) =
      size (cs.take (Piece.stringLength quote cs)) := by
  fun_induction Piece.stringLength quote cs with
  | case1 => rfl
  | case2 => rfl
  | case3 c cs ih =>
    rw [bytes_cons, utf8EncodeChar_ascii (by decide), List.singleton_append, bytes_cons,
      stringSize_pair hquote, ih, Nat.add_comm 2, List.take_succ_cons, List.take_succ_cons,
      size_cons, size_cons, Nat.add_assoc]
    rfl
  | case4 cs hend hescape =>
    have hback := ne_of_not_followed hend hescape
    rw [bytes_cons, utf8EncodeChar_ascii hquote, List.singleton_append, stringSize,
      if_neg (ofNat_toNat_ne hquote (by decide) hback), if_pos rfl, List.take_succ_cons,
      List.take_zero, size_cons, size_nil, ← String.length_utf8EncodeChar,
      utf8EncodeChar_ascii hquote]
    rfl
  | case5 c cs hend hescape hc ih =>
    have hback := ne_of_not_followed hend hescape
    rw [bytes_cons, stringSize_char hquote hback hc, ih, Nat.add_comm 1, List.take_succ_cons,
      size_cons]

/-- Read byte by byte, a string ends where the count of its characters says. -/
theorem stringEnd?_bytes (hquote : quote.toNat < 128) (before rest : List Char) :
    stringEnd? (bytes (before ++ quote :: rest)) (size before) =
      some (size (before ++ quote :: rest.take (Piece.stringLength quote rest))) := by
  have hone : quote.utf8Size = 1 := by
    rw [← String.length_utf8EncodeChar, utf8EncodeChar_ascii hquote]
    rfl
  have hbytes : bytes (before ++ quote :: rest) =
      bytes before ++ UInt8.ofNat quote.toNat :: bytes rest := by
    rw [bytes_append, bytes_cons, utf8EncodeChar_ascii hquote, List.singleton_append]
  have hget : (bytes (before ++ quote :: rest))[size before]? = some (UInt8.ofNat quote.toNat) := by
    rw [hbytes, ← length_bytes, List.getElem?_append_right (Nat.le_refl _), Nat.sub_self]
    rfl
  have hbehind : (bytes (before ++ quote :: rest)).drop (size before + 1) = bytes rest := by
    rw [hbytes, ← length_bytes, ← List.drop_drop, List.drop_left]
    rfl
  have hlength : (bytes (before ++ quote :: rest)).length = size before + (1 + size rest) := by
    rw [length_bytes, size_append, size_cons, hone]
  rw [stringEnd?, hget, Option.map_some, stringEndFrom_eq (by omega), hbehind,
    stringSize_bytes hquote, size_append, size_cons, hone, Nat.add_assoc]

/-! ## The closing quote -/

/-- A string ends behind the first quote that no backslash takes along. -/
theorem stringLength_of_terminated (hquote : quote ≠ '\\') {cs : List Char}
    (h : Terminated quote cs) :
    ∃ inside after, cs = inside ++ quote :: after ∧ Paired inside ∧ ¬ Terminated quote inside ∧
      Piece.stringLength quote cs = inside.length + 1 := by
  fun_induction Piece.stringLength quote cs with
  | case1 => exact absurd h not_terminated_nil
  | case2 => exact absurd h (not_terminated_singleton hquote.symm)
  | case3 c cs ih =>
    obtain ⟨inside, after, rfl, hpaired, hopen, hlength⟩ := ih ((terminated_pair hquote c cs).mp h)
    refine ⟨'\\' :: c :: inside, after, rfl, (paired_append (paired_pair c) inside).mpr hpaired,
      fun hinside => hopen ((terminated_pair hquote c inside).mp hinside), ?_⟩
    rw [hlength, List.length_cons, List.length_cons]
    omega
  | case4 cs hend hescape => exact ⟨[], cs, rfl, paired_nil, not_terminated_nil, rfl⟩
  | case5 c cs hend hescape hc ih =>
    have hback := ne_of_not_followed hend hescape
    obtain ⟨inside, after, rfl, hpaired, hopen, hlength⟩ := ih ((terminated_plain hback hc cs).mp h)
    refine ⟨c :: inside, after, rfl, (paired_append (paired_singleton hback) inside).mpr hpaired,
      fun hinside => hopen ((terminated_plain hback hc inside).mp hinside), ?_⟩
    rw [hlength, List.length_cons]
    omega

/-- Without such a quote it is the whole text. -/
theorem stringLength_of_not_terminated (hquote : quote ≠ '\\') {cs : List Char}
    (h : ¬ Terminated quote cs) : Piece.stringLength quote cs = cs.length := by
  fun_induction Piece.stringLength quote cs with
  | case1 => rfl
  | case2 => rfl
  | case3 c cs ih =>
    rw [terminated_pair hquote] at h
    rw [ih h, List.length_cons, List.length_cons]
    omega
  | case4 cs hend hescape => exact absurd (terminated_quote quote cs) h
  | case5 c cs hend hescape hc ih =>
    rw [terminated_plain (ne_of_not_followed hend hescape) hc] at h
    rw [ih h, List.length_cons]
    omega

namespace Expr

theorem stringAt?_of_terminated (hquote : quote ≠ '\\') {cs : List Char}
    (h : Terminated quote cs) :
    ∃ value, stringAt? quote cs = some (value, Piece.stringLength quote cs) := by
  fun_induction Piece.stringLength quote cs with
  | case1 => exact absurd h not_terminated_nil
  | case2 => exact absurd h (not_terminated_singleton hquote.symm)
  | case3 c cs ih =>
    obtain ⟨value, hvalue⟩ := ih ((terminated_pair hquote c cs).mp h)
    exact ⟨c :: value, by rw [stringAt?, hvalue, Option.map_some, Nat.add_comm]⟩
  | case4 cs hend hescape => exact ⟨[], by rw [stringAt?.eq_4 _ _ _ hend hescape, if_pos rfl]⟩
  | case5 c cs hend hescape hc ih =>
    obtain ⟨value, hvalue⟩ := ih ((terminated_plain (ne_of_not_followed hend hescape) hc cs).mp h)
    refine ⟨c :: value, ?_⟩
    rw [stringAt?.eq_4 _ _ _ hend hescape, if_neg hc, hvalue, Option.map_some, Nat.add_comm]

theorem stringAt?_eq_none (hquote : quote ≠ '\\') {cs : List Char} (h : ¬ Terminated quote cs) :
    stringAt? quote cs = none := by
  fun_induction stringAt? quote cs with
  | case1 => rfl
  | case2 => rfl
  | case3 c cs ih => rw [ih (fun hcs => h ((terminated_pair hquote c cs).mpr hcs)), Option.map_none]
  | case4 cs => exact absurd (terminated_quote quote cs) h
  | case5 c cs hend hescape hc ih =>
    have hback := ne_of_not_followed hend hescape
    rw [ih (fun hcs => h ((terminated_plain hback hc cs).mpr hcs)), Option.map_none]

/-- The token that begins with a quote is the string with what it stands for, if that is closed. -/
theorem lexemeAt_quote (h : quote = '"' ∨ quote = '\x27') (rest : List Char) :
    lexemeAt quote rest =
      match stringAt? quote rest with
      | some (value, n) => .ok (.str (String.ofList value), n)
      | none => .error (.unterminatedString, rest.length) := by
  rcases h with rfl | rfl <;> rfl

theorem lexemeAt_of_terminated (h : quote = '"' ∨ quote = '\x27') (hquote : quote ≠ '\\')
    {rest : List Char} (hclosed : Terminated quote rest) :
    ∃ value, lexemeAt quote rest = .ok (.str value, Piece.stringLength quote rest) := by
  obtain ⟨value, hvalue⟩ := stringAt?_of_terminated hquote hclosed
  exact ⟨String.ofList value, by rw [lexemeAt_quote h, hvalue]⟩

theorem lexemeAt_of_not_terminated (h : quote = '"' ∨ quote = '\x27') (hquote : quote ≠ '\\')
    {rest : List Char} (hopen : ¬ Terminated quote rest) :
    lexemeAt quote rest = .error (.unterminatedString, rest.length) := by
  rw [lexemeAt_quote h, stringAt?_eq_none hquote hopen]

theorem terminated_of_lexemeAt (h : quote = '"' ∨ quote = '\x27') (hquote : quote ≠ '\\')
    {rest : List Char} {value : String} {n : Nat}
    (hread : lexemeAt quote rest = .ok (.str value, n)) :
    Terminated quote rest ∧ n = Piece.stringLength quote rest := by
  by_cases hclosed : Terminated quote rest
  · obtain ⟨value', hread'⟩ := lexemeAt_of_terminated h hquote hclosed
    rw [hread'] at hread
    cases hread
    exact ⟨hclosed, rfl⟩
  · rw [lexemeAt_of_not_terminated h hquote hclosed] at hread
    cases hread

end Expr

end

/-! ## All readers together -/

/-- At an offset of a text a quote stands behind `before`, and all who pass over the string that it
opens stop at one offset. -/
structure StringEnds (text : List Char) (i : Nat) (q : Char) (before rest : List Char)
    (stop : Nat) : Prop where
  split : text = before ++ q :: rest
  offset : size before = i
  le_size : stop ≤ size text
  boundary : ∃ front behind, text = front ++ behind ∧ size front = stop
  bytewise : stringEnd? (bytes text) i = some stop
  cutting : size (before ++ q :: rest.take (Piece.stringLength q rest)) = stop
  script : (Script.literalLength? (q :: rest)).map (fun n => size (before ++ (q :: rest).take n)) =
    some stop
  markup : ((⟨before.getLast?, i, q :: rest⟩ : Markup.Cursor).advance
    (1 + Markup.quotedLength q false rest)).offset = stop
  /-- Expressions insist on the closing quote. -/
  read_iff : (∃ value n, Expr.lexemeAt q rest = .ok (.str value, n)) ↔ Terminated q rest
  expression : ∀ value n, Expr.lexemeAt q rest = .ok (.str value, n) →
    size (before ++ q :: rest.take n) = stop
  closed : Terminated q rest → ∃ inside after, rest = inside ++ q :: after ∧ Paired inside ∧
    ¬ Terminated q inside ∧ stop = size (before ++ q :: (inside ++ [q]))
  unclosed : ¬ Terminated q rest → stop = size text

/-- At the offset of a quote the byte loop, the cutting, the scripts and the markup all stop at one
offset between two characters of the text. It lies behind the first quote that no backslash takes
along, or at the end if there is none. The tokens of expressions read a string exactly if there is
such a quote, and stop at the same offset. -/
theorem strings_end_alike {text : List Char} {i : Nat} {q : Char} (hq : q = '"' ∨ q = '\x27')
    (hi : (bytes text)[i]? = some (UInt8.ofNat q.toNat)) :
    ∃ before rest stop, StringEnds text i q before rest stop := by
  have hascii : q.toNat < 128 := by
    rcases hq with rfl | rfl <;> decide
  have hback : q ≠ '\\' := by
    rcases hq with rfl | rfl <;> decide
  obtain ⟨before, rest, rfl, rfl⟩ := exists_split_of_getElem?_bytes hascii hi
  have hsplit : before ++ q :: rest =
      (before ++ q :: rest.take (Piece.stringLength q rest)) ++
        rest.drop (Piece.stringLength q rest) := by
    rw [List.append_assoc, List.cons_append, List.take_append_drop]
  refine ⟨before, rest, size (before ++ q :: rest.take (Piece.stringLength q rest)), ?_⟩
  exact {
    split := rfl
    offset := rfl
    le_size := by
      rw [hsplit, size_append _ (rest.drop _)]
      exact Nat.le_add_right _ _
    boundary := ⟨_, _, hsplit, rfl⟩
    bytewise := stringEnd?_bytes hascii before rest
    cutting := rfl
    script := by
      rw [Script.literalLength?_cons, if_pos (by tauto), Option.map_some, Nat.add_comm,
        List.take_succ_cons]
    markup := by
      rw [Markup.quotedLength_eq, Nat.add_comm, Markup.Cursor.advance, List.take_succ_cons,
        ← size_append]
    read_iff := by
      constructor
      · rintro ⟨value, n, hread⟩
        exact (Expr.terminated_of_lexemeAt hq hback hread).1
      · intro hclosed
        obtain ⟨value, hread⟩ := Expr.lexemeAt_of_terminated hq hback hclosed
        exact ⟨value, _, hread⟩
    expression := by
      intro value n hread
      rw [(Expr.terminated_of_lexemeAt hq hback hread).2]
    closed := by
      intro hclosed
      obtain ⟨inside, after, hrest, hpaired, hopen, hlength⟩ :=
        stringLength_of_terminated hback hclosed
      have htake : rest.take (Piece.stringLength q rest) = inside ++ [q] := by
        rw [hlength, hrest, List.append_cons]
        exact List.take_left' (by rw [List.length_append, List.length_singleton])
      exact ⟨inside, after, hrest, hpaired, hopen, by rw [htake]⟩
    unclosed := by
      intro hopen
      rw [stringLength_of_not_terminated hback hopen, List.take_length] }

/-- A string with a backslash before a wide character and one before a quote. -/
theorem strings_end_alike_wide :
    ∃ text, text = "\"\\é\\\"\" x".toList ∧ (bytes text)[0]? = some (UInt8.ofNat '"'.toNat) ∧
      ∃ before rest stop, StringEnds text 0 '"' before rest stop ∧ stop = 7 := by
  obtain ⟨text, htext⟩ : ∃ text, text = "\"\\é\\\"\" x".toList := ⟨_, rfl⟩
  have hbyte : (bytes text)[0]? = some (UInt8.ofNat '"'.toNat) := by
    rw [htext, String.toList_ofList]
    rfl
  have hstop : stringEnd? (bytes text) 0 = some 7 := by
    rw [htext, String.toList_ofList]
    decide +kernel
  obtain ⟨before, rest, stop, hends⟩ := strings_end_alike (.inl rfl) hbyte
  exact ⟨text, htext, hbyte, before, rest, stop, hends,
    Option.some.inj (hends.bytewise.symm.trans hstop)⟩

end Chtl
