import Chtl.Proofs.Text.Basic

/-!
# Texts as bytes

The bytes of a text are those of its characters, one after the other. A character of ASCII is one
byte, its own number; the bytes of any other character lie above ASCII. So a byte of ASCII stands
for itself wherever it is found.
-/

set_option autoImplicit false
set_option linter.all false

namespace Chtl.Text

/-- The bytes of a text in UTF-8. -/
def bytes (cs : List Char) : List UInt8 := cs.flatMap String.utf8EncodeChar

@[simp] theorem bytes_nil : bytes [] = [] := rfl

@[simp] theorem bytes_cons (c : Char) (cs : List Char) :
    bytes (c :: cs) = String.utf8EncodeChar c ++ bytes cs := rfl

@[simp] theorem bytes_append (as bs : List Char) : bytes (as ++ bs) = bytes as ++ bytes bs :=
  List.flatMap_append

@[simp] theorem length_bytes (cs : List Char) : (bytes cs).length = size cs := by
  induction cs with
  | nil => rfl
  | cons c cs ih => simp [ih]

/-- A byte of a part of a text is a byte of the text, further on by what comes before the part. -/
theorem getElem?_bytes_part (before text after : List Char) {n : Nat} (h : n < size text) :
    (bytes (before ++ (text ++ after)))[size before + n]? = (bytes text)[n]? := by
  rw [bytes_append, bytes_append, List.getElem?_append_right (by simp), length_bytes,
    Nat.add_sub_cancel_left, List.getElem?_append_left (by simpa using h)]

/-! ## ASCII -/

theorem utf8EncodeChar_ascii {c : Char} (h : c.toNat < 128) :
    String.utf8EncodeChar c = [UInt8.ofNat c.toNat] := by
  have hval : c.val.toNat ≤ 127 := Nat.le_of_lt_succ h
  rw [String.utf8EncodeChar, if_pos hval]
  rfl

theorem le_of_mem_utf8EncodeChar {c : Char} (h : 128 ≤ c.toNat) {b : UInt8}
    (hb : b ∈ String.utf8EncodeChar c) : 128 ≤ b.toNat := by
  have hval : ¬ c.val.toNat ≤ 127 := Nat.not_le_of_lt h
  have hlead {n : Nat} (hlow : 128 ≤ n) (hhigh : n < 256) : 128 ≤ (UInt8.ofNat n).toNat := by
    rwa [UInt8.toNat_ofNat', Nat.mod_eq_of_lt hhigh]
  -- a byte of a longer encoding is a lead or a continuation, six bits over 128 or more
  have hall : ∀ b ∈ String.utf8EncodeChar c, 128 ≤ b.toNat := by
    rw [String.utf8EncodeChar, if_neg hval]
    split_ifs <;>
      simp only [List.forall_mem_cons, List.not_mem_nil, false_implies, implies_true, and_true]
    · exact ⟨hlead (by omega) (by omega), hlead (by omega) (by omega)⟩
    · exact ⟨hlead (by omega) (by omega), hlead (by omega) (by omega), hlead (by omega) (by omega)⟩
    · exact ⟨hlead (by omega) (by omega), hlead (by omega) (by omega), hlead (by omega) (by omega),
        hlead (by omega) (by omega)⟩
  exact hall b hb

theorem toNat_ofNat_ascii {n : Nat} (h : n < 128) : (UInt8.ofNat n).toNat = n := by
  rw [UInt8.toNat_ofNat', Nat.mod_eq_of_lt (by omega)]

/-- A byte of ASCII is a character of the text, which stands where the byte does. -/
theorem exists_split_of_getElem?_bytes {cs : List Char} {i : Nat} {c : Char} (hc : c.toNat < 128)
    (h : (bytes cs)[i]? = some (UInt8.ofNat c.toNat)) :
    ∃ before after, cs = before ++ c :: after ∧ size before = i := by
  induction cs generalizing i with
  | nil => simp at h
  | cons x cs ih =>
    rw [bytes_cons] at h
    by_cases hi : i < (String.utf8EncodeChar x).length
    · rw [List.getElem?_append_left hi] at h
      have hx : x.toNat < 128 := by
        by_contra hwide
        have hhigh := le_of_mem_utf8EncodeChar (Nat.le_of_not_lt hwide) (List.mem_of_getElem? h)
        rw [toNat_ofNat_ascii hc] at hhigh
        omega
      rw [utf8EncodeChar_ascii hx] at h hi
      obtain rfl : i = 0 := Nat.lt_one_iff.mp hi
      have hbyte : (UInt8.ofNat x.toNat).toNat = (UInt8.ofNat c.toNat).toNat :=
        congrArg UInt8.toNat (Option.some.inj h)
      rw [toNat_ofNat_ascii hx, toNat_ofNat_ascii hc] at hbyte
      exact ⟨[], cs, by rw [Char.toNat_inj.mp hbyte, List.nil_append], rfl⟩
    · rw [List.getElem?_append_right (Nat.le_of_not_lt hi)] at h
      obtain ⟨before, after, rfl, hsize⟩ := ih h
      refine ⟨x :: before, after, rfl, ?_⟩
      rw [size_cons, hsize]
      rw [String.length_utf8EncodeChar] at hi ⊢
      omega

/-- A text of ASCII is at the front of another one if its bytes are. -/
theorem prefix_of_bytes {lead cs : List Char} (hascii : ∀ c ∈ lead, c.toNat < 128)
    (h : bytes lead <+: bytes cs) : lead <+: cs := by
  induction lead generalizing cs with
  | nil => exact List.nil_prefix
  | cons c lead ih =>
    obtain ⟨hc, hlead⟩ := List.forall_mem_cons.mp hascii
    rw [bytes_cons, utf8EncodeChar_ascii hc, List.singleton_append] at h
    obtain ⟨more, hmore⟩ := h
    have hfirst : (bytes cs)[0]? = some (UInt8.ofNat c.toNat) := by rw [← hmore]; rfl
    obtain ⟨before, after, rfl, hsize⟩ := exists_split_of_getElem?_bytes hc hfirst
    cases before with
    | cons x before =>
      have := x.utf8Size_pos
      rw [size_cons] at hsize
      omega
    | nil =>
      rw [List.nil_append, bytes_cons, utf8EncodeChar_ascii hc, List.singleton_append] at hmore
      rw [List.nil_append, List.cons_prefix_cons]
      exact ⟨rfl, ih hlead ⟨more, (List.cons.inj hmore).2⟩⟩

/-- The bytes of `lead` stand at an offset of a text. -/
def Begins (lead text : List Char) (i : Nat) : Prop := bytes lead <+: (bytes text).drop i

instance (lead text : List Char) (i : Nat) : Decidable (Begins lead text i) :=
  inferInstanceAs (Decidable (bytes lead <+: (bytes text).drop i))

theorem begins_iff {lead : List Char} (hascii : ∀ c ∈ lead, c.toNat < 128) (before rest : List Char) :
    Begins lead (before ++ rest) (size before) ↔ lead <+: rest := by
  have hdrop : (bytes (before ++ rest)).drop (size before) = bytes rest := by
    rw [bytes_append, ← length_bytes, List.drop_left]
  rw [Begins, hdrop]
  constructor
  · exact prefix_of_bytes hascii
  · rintro ⟨more, rfl⟩
    rw [bytes_append]
    exact List.prefix_append _ _

theorem Begins.getElem? {c : Char} {lead text : List Char} {i : Nat} (hc : c.toNat < 128)
    (h : Begins (c :: lead) text i) : (bytes text)[i]? = some (UInt8.ofNat c.toNat) := by
  rw [Begins, bytes_cons, utf8EncodeChar_ascii hc, List.singleton_append] at h
  obtain ⟨more, hmore⟩ := h
  rw [← Nat.add_zero i, ← List.getElem?_drop, ← hmore]
  rfl

/-- Where a part of a text ends, the byte before is the last of that part. -/
theorem getElem?_bytes_before {before : List Char} (hne : bytes before ≠ []) (after : List Char) :
    (bytes (before ++ after))[size before - 1]? = (bytes before).getLast? := by
  have hpos := List.length_pos_iff.mpr hne
  rw [bytes_append, List.getElem?_append_left (by rw [length_bytes] at hpos ⊢; omega),
    List.getLast?_eq_getElem?, length_bytes]

theorem getLast?_bytes_concat (cs : List Char) (c : Char) :
    (bytes (cs ++ [c])).getLast? = (String.utf8EncodeChar c).getLast? := by
  rw [bytes_append, bytes_cons, bytes_nil, List.append_nil,
    List.getLast?_append_of_ne_nil _ (String.utf8EncodeChar_ne_nil)]

theorem toNat_lt_of_isAsciiAlnum {c : Char} (h : isAsciiAlnum c = true) : c.toNat < 128 := by
  have hle (a b : Char) : a ≤ b ↔ a.toNat ≤ b.toNat := Iff.rfl
  simp only [isAsciiAlnum, isAsciiLetter, isAsciiUpper, isAsciiLower, isAsciiDigit, Bool.or_eq_true,
    Bool.and_eq_true, decide_eq_true_eq, hle, show 'Z'.toNat = 90 from rfl,
    show 'z'.toNat = 122 from rfl, show '9'.toNat = 57 from rfl] at h
  omega

end Chtl.Text
