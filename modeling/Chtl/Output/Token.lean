import Chtl.Fragment.Basic

/-!
# Placeholders in a text

A placeholder is recognised by its shape alone: the mark, the kind of block, eight hexadecimal
digits, an ordinal and the closing mark. A text is cut into placeholders and the characters between
them, from left to right.
-/

set_option autoImplicit false
set_option linter.all false

namespace Chtl.Output

open Text

def isHexDigit (c : Char) : Bool :=
  isAsciiDigit c || (decide ('a' ≤ c) && decide (c ≤ 'f'))

/-- The length of the nonce, the ordinal and the closing mark at the front. -/
def numberLength? (cs : List Char) : Option Nat :=
  let nonce := cs.take 8
  let ordinal := (cs.drop 9).takeWhile isDecimalDigit
  let last := cs.drop (9 + ordinal.length)
  if nonce.length = 8 && nonce.all isHexDigit && (cs.drop 8).head? == some '_' &&
      !ordinal.isEmpty && startsWith last ['_', '_']
  then some (9 + ordinal.length + 2)
  else none

/-- The length of a placeholder of one kind at the front. -/
def tokenOfKindLength? (kind : FragmentKind) (cs : List Char) : Option Nat :=
  let mark := ("__CHTL_" ++ kind.tokenTag ++ "_").toList
  (after? mark cs).bind fun rest => (numberLength? rest).map (· + mark.length)

/-- The length of a placeholder at the front. -/
def tokenLength? (cs : List Char) : Option Nat :=
  (tokenOfKindLength? .style cs).or (tokenOfKindLength? .script cs)

inductive Segment where
  | plain (c : Char)
  | token (text : List Char)
  deriving DecidableEq, Repr

def Segment.text : Segment → List Char
  | plain c => [c]
  | token t => t

/-- The placeholder that a segment is. -/
def Segment.token? : Segment → Option (List Char)
  | plain _ => none
  | token t => some t

/-- A text cut at its placeholders. -/
def segments (cs : List Char) : List Segment :=
  match cs with
  | [] => []
  | c :: rest =>
    match tokenLength? (c :: rest) with
    | some n => .token (c :: rest.take (n - 1)) :: segments (rest.drop (n - 1))
    | none => .plain c :: segments rest
termination_by cs.length
decreasing_by all_goals simp only [List.length_cons, List.length_drop]; omega

/-- The placeholders of a text in their order. -/
def tokens (cs : List Char) : List (List Char) :=
  (segments cs).filterMap Segment.token?

/-- A text with each placeholder replaced. -/
def mapTokens (f : List Char → List Char) (cs : List Char) : List Char :=
  (segments cs).flatMap fun
    | .plain c => [c]
    | .token t => f t

/-- Cutting loses nothing. -/
theorem flatMap_text_segments (cs : List Char) : (segments cs).flatMap Segment.text = cs := by
  fun_induction segments cs with
  | case1 => rfl
  | case2 c rest n _ ih => simp [Segment.text, ih]
  | case3 c rest _ ih => simp [Segment.text, ih]

/-- A placeholder of a text is a part of it. -/
theorem part_of_mem_tokens {cs t : List Char} (h : t ∈ tokens cs) : t <:+: cs := by
  obtain ⟨s, hs, ht⟩ := List.mem_filterMap.mp h
  obtain ⟨as, bs, hab⟩ := List.append_of_mem hs
  have hst : s.text = t := by
    cases s with
    | plain c => simp [Segment.token?] at ht
    | token u => simpa [Segment.token?, Segment.text] using ht
  refine ⟨as.flatMap Segment.text, bs.flatMap Segment.text, ?_⟩
  rw [← flatMap_text_segments cs, hab]
  simp [hst]

end Chtl.Output
