import Chtl.Fragment.Scan
import Mathlib.Data.List.GetD

/-!
# Digests of fixed texts

A digest is computed with words of 32 bits. With numbers in their place, and sums modulo 2³², it
takes far fewer steps to work out in a proof, and comes to the same. The nonce of a unit is a part
of a digest, so a fixed source is scanned with numbers.
-/

set_option autoImplicit false
set_option linter.all false

namespace Chtl

namespace Sha256

/-- A number of 32 bits turned right by some of them, which is left by the others. -/
def turn (right left x : Nat) : Nat := x >>> right ||| (x <<< left) % 0x100000000

theorem toNat_rotate (x n : UInt32) (h : 0 < n.toNat ∧ n.toNat < 32) :
    (rotate x n).toNat = turn n.toNat (32 - n.toNat) x.toNat := by
  have hleft : (32 - n).toNat = 32 - n.toNat :=
    UInt32.toNat_sub_of_le _ _ (UInt32.le_iff_toNat_le.mpr (Nat.le_of_lt h.2))
  have hlt : 32 - n.toNat < 32 := by omega
  unfold rotate turn
  rw [UInt32.toNat_or, UInt32.toNat_shiftRight, UInt32.toNat_shiftLeft, hleft,
    Nat.mod_eq_of_lt h.2, Nat.mod_eq_of_lt hlt]

/-! ## The state -/

/-- The words of a state as numbers. -/
structure Numbers where
  a : Nat
  b : Nat
  c : Nat
  d : Nat
  e : Nat
  f : Nat
  g : Nat
  h : Nat

namespace Numbers

def words (s : Numbers) : List Nat := [s.a, s.b, s.c, s.d, s.e, s.f, s.g, s.h]

def add (s t : Numbers) : Numbers :=
  ⟨(s.a + t.a) % 0x100000000, (s.b + t.b) % 0x100000000, (s.c + t.c) % 0x100000000,
    (s.d + t.d) % 0x100000000, (s.e + t.e) % 0x100000000, (s.f + t.f) % 0x100000000,
    (s.g + t.g) % 0x100000000, (s.h + t.h) % 0x100000000⟩

def round : Numbers → (k w : Nat) → Numbers
  | ⟨a, b, c, d, e, f, g, h⟩, k, w =>
    let mix := turn 6 26 e ^^^ turn 11 21 e ^^^ turn 25 7 e
    let choice := (e &&& f) ^^^ ((0xffffffff - e) &&& g)
    let first := h + mix + choice + k + w
    let spread := turn 2 30 a ^^^ turn 13 19 a ^^^ turn 22 10 a
    let majority := (a &&& b) ^^^ (a &&& c) ^^^ (b &&& c)
    ⟨(first + (spread + majority)) % 0x100000000, a, b, c, (d + first) % 0x100000000, e, f, g⟩

end Numbers

namespace State

def numbers (s : State) : Numbers :=
  ⟨s.a.toNat, s.b.toNat, s.c.toNat, s.d.toNat, s.e.toNat, s.f.toNat, s.g.toNat, s.h.toNat⟩

theorem words_numbers (s : State) : s.numbers.words = s.words.map UInt32.toNat := rfl

theorem numbers_add (s t : State) : (s.add t).numbers = s.numbers.add t.numbers := rfl

theorem numbers_round (s : State) (k w : UInt32) :
    (s.round k w).numbers = s.numbers.round k.toNat w.toNat := by
  unfold State.round numbers Numbers.round
  simp [toNat_rotate]

theorem numbers_foldl_round (s : State) (ks ws : List UInt32) :
    ((ks.zip ws).foldl (fun t kw => t.round kw.1 kw.2) s).numbers =
      ((ks.map UInt32.toNat).zip (ws.map UInt32.toNat)).foldl (fun t kw => t.round kw.1 kw.2)
        s.numbers := by
  rw [List.zip_map, List.foldl_map, List.foldl_hom numbers]
  exact fun t kw => (numbers_round t kw.1 kw.2).symm

end State

/-! ## The schedule -/

/-- The next word of a schedule from the four that it depends on. -/
def scheduled (w x v y : Nat) : Nat :=
  (w + (turn 7 25 x ^^^ turn 18 14 x ^^^ x >>> 3) + v +
    (turn 17 15 y ^^^ turn 19 13 y ^^^ y >>> 10)) % 0x100000000

/-- The four words are taken in one step. -/
def nextNumber : List Nat → Nat
  | _ :: y :: _ :: _ :: _ :: _ :: v :: _ :: _ :: _ :: _ :: _ :: _ :: _ :: x :: w :: _ =>
    scheduled w x v y
  | recent => scheduled (recent.getD 15 0) (recent.getD 14 0) (recent.getD 6 0) (recent.getD 1 0)

theorem nextNumber_eq (recent : List Nat) : nextNumber recent =
    scheduled (recent.getD 15 0) (recent.getD 14 0) (recent.getD 6 0) (recent.getD 1 0) := by
  unfold nextNumber
  split <;> rfl

theorem toNat_nextWord (recent : List UInt32) :
    (nextWord recent).toNat = nextNumber (recent.map UInt32.toNat) := by
  have hget (i : Nat) : (recent.map UInt32.toNat).getD i 0 = (recent.getD i 0).toNat :=
    List.getD_map recent 0 UInt32.toNat
  simp only [nextNumber_eq, hget]
  unfold nextWord scheduled
  simp [toNat_rotate]

def extendNumbers : Nat → List Nat → List Nat
  | 0, ws => ws
  | n + 1, ws => extendNumbers n (nextNumber ws :: ws)

theorem map_extendSchedule (n : Nat) (ws : List UInt32) :
    (extendSchedule n ws).map UInt32.toNat = extendNumbers n (ws.map UInt32.toNat) := by
  induction n generalizing ws with
  | zero => rfl
  | succ n ih =>
    have hnext : (nextWord ws :: ws).map UInt32.toNat =
        nextNumber (ws.map UInt32.toNat) :: ws.map UInt32.toNat := by
      rw [List.map_cons, toNat_nextWord]
    exact (ih _).trans (congrArg (extendNumbers n) hnext)

/-! ## The digest -/

def Numbers.absorb (s : Numbers) (block : List Nat) : Numbers :=
  let schedule := (extendNumbers 48 block.reverse).reverse
  s.add (((roundConstants.map UInt32.toNat).zip schedule).foldl (fun t kw => t.round kw.1 kw.2) s)

theorem State.numbers_absorb (s : State) (block : List UInt32) :
    (s.absorb block).numbers = s.numbers.absorb (block.map UInt32.toNat) := by
  unfold absorb Numbers.absorb
  rw [numbers_add, numbers_foldl_round, List.map_reverse, map_extendSchedule, List.map_reverse]

def Numbers.absorbBlocks : Nat → Numbers → List Nat → Numbers
  | 0, s, _ => s
  | n + 1, s, ws => absorbBlocks n (s.absorb (ws.take 16)) (ws.drop 16)

theorem numbers_absorbBlocks (n : Nat) (s : State) (ws : List UInt32) :
    (absorbBlocks n s ws).numbers = s.numbers.absorbBlocks n (ws.map UInt32.toNat) := by
  induction n generalizing s ws with
  | zero => rfl
  | succ n ih =>
    have hrest := ih (s.absorb (ws.take 16)) (ws.drop 16)
    rw [State.numbers_absorb, List.map_take, List.map_drop] at hrest
    exact hrest

/-- The digest as it comes out with numbers. -/
def numberDigest (message : List UInt8) : List UInt8 :=
  let ws := (toWords (pad message)).map UInt32.toNat
  (State.start.numbers.absorbBlocks (ws.length / 16) ws).words.flatMap (bigEndian 4)

theorem digest_eq (message : List UInt8) : digest message = numberDigest message := by
  unfold digest numberDigest
  dsimp only
  rw [List.length_map, ← numbers_absorbBlocks, State.words_numbers, List.flatMap_map]

end Sha256

/-- The nonce as it comes out with numbers. -/
def numberNonce (source : List Char) : String :=
  Sha256.hex ((Sha256.numberDigest (source.flatMap String.utf8EncodeChar)).take 4)

theorem unitNonce_eq (source : List Char) : unitNonce source = numberNonce source := by
  unfold unitNonce numberNonce
  rw [Sha256.digest_eq]

theorem scan_eq (source : List Char) : scan source =
    match Piece.cut source with
    | .ok pieces => .ok ⟨Scanned.assemble (numberNonce source) 0 0 pieces, Text.size source⟩
    | .error e => .error ⟨e.kind, e.start, .ofOffset source e.start⟩ := by
  rw [← unitNonce_eq]
  rfl

end Chtl
