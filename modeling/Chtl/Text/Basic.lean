import Chtl.Text.Class

/-!
# Texts as lists of characters

Readers work on lists of characters. Positions are byte offsets of the UTF-8 encoding, so the size
of a text is the sum of the encoded sizes of its characters. A function that looks ahead answers
with a count of characters; what it passed over and what is left are then `take` and `drop`.
-/

set_option autoImplicit false
set_option linter.all false

namespace Chtl.Text

/-- The number of bytes of the text in UTF-8. -/
def size : List Char → Nat
  | [] => 0
  | c :: cs => c.utf8Size + size cs

@[simp] theorem size_nil : size [] = 0 := rfl

@[simp] theorem size_cons (c : Char) (cs : List Char) : size (c :: cs) = c.utf8Size + size cs := rfl

@[simp] theorem size_append (as bs : List Char) : size (as ++ bs) = size as + size bs := by
  induction as with
  | nil => simp
  | cons a as ih => simp [ih, Nat.add_assoc]

/-- A string keeps the size of its text at hand. -/
theorem utf8ByteSize_ofList (cs : List Char) : (String.ofList cs).utf8ByteSize = size cs := by
  induction cs with
  | nil => simp
  | cons c cs ih =>
    rw [← List.singleton_append, String.ofList_append, String.utf8ByteSize_append, ih]
    simp

theorem size_toList (s : String) : size s.toList = s.utf8ByteSize := by
  rw [← utf8ByteSize_ofList, String.ofList_toList]

/-- The text without the blanks at its front. -/
def trimLeft (cs : List Char) : List Char :=
  cs.dropWhile isBlank

/-- The text without the blanks at its end. -/
def trimRight (cs : List Char) : List Char :=
  (cs.reverse.dropWhile isBlank).reverse

def trim (cs : List Char) : List Char :=
  trimRight (trimLeft cs)

/-- What follows `lead` when the text begins with it. -/
def after? : (lead text : List Char) → Option (List Char)
  | [], cs => some cs
  | _ :: _, [] => none
  | l :: ls, c :: cs => if l = c then after? ls cs else none

def startsWith (text lead : List Char) : Bool :=
  (after? lead text).isSome

def endsWith (text tail : List Char) : Bool :=
  startsWith text.reverse tail.reverse

/-- The number of characters before the first occurrence of `needle`. -/
def find? (needle : List Char) : List Char → Option Nat
  | [] => if needle.isEmpty then some 0 else none
  | c :: cs =>
    if startsWith (c :: cs) needle then some 0 else (find? needle cs).map (· + 1)

def contains (text needle : List Char) : Bool :=
  (find? needle text).isSome

/-- The number of characters before the first one that satisfies `p`. -/
def findChar? (p : Char → Bool) : List Char → Option Nat
  | [] => none
  | c :: cs => if p c then some 0 else (findChar? p cs).map (· + 1)

/-- The number of characters up to and with the first occurrence of `needle`, or of the whole text
when there is none. -/
def lengthThrough (needle cs : List Char) : Nat :=
  match find? needle cs with
  | some n => n + needle.length
  | none => cs.length

/-- The number of characters before the first line feed, or of the whole text. -/
def lineLength (cs : List Char) : Nat :=
  (cs.takeWhile (· != '\n')).length

/-- The maximal runs of characters that are not blank. -/
def words (cs : List Char) : List (List Char) :=
  (cs.splitBy fun a b => isBlank a == isBlank b).filter fun w => !(w.any isBlank)

/-- The parts of a text between the characters that satisfy `p`, empty ones included. -/
def splitOnChar (p : Char → Bool) : List Char → List (List Char)
  | [] => [[]]
  | c :: cs =>
    match splitOnChar p cs with
    | [] => [[c]]
    | part :: parts => if p c then [] :: part :: parts else (c :: part) :: parts

/-- Every occurrence of the character written as `image`. -/
def replaceChar (old : Char) (image cs : List Char) : List Char :=
  cs.flatMap fun c => if c = old then image else [c]

/-- The characters at an offset in bytes, rounded up to a whole character. -/
def dropBytes : Nat → List Char → List Char
  | 0, cs => cs
  | _ + 1, [] => []
  | n + 1, c :: cs => dropBytes (n + 1 - c.utf8Size) cs

/-- The characters before an offset in bytes, rounded up to a whole character. -/
def takeBytes : Nat → List Char → List Char
  | 0, _ => []
  | _ + 1, [] => []
  | n + 1, c :: cs => c :: takeBytes (n + 1 - c.utf8Size) cs

end Chtl.Text
