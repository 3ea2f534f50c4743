import Chtl.Markup.Parse
import Chtl.Proofs.Digest.Numbers
import Chtl.Proofs.Fragment.Tiling
import Chtl.Proofs.Outcome

/-!
# Reading the markup off the pieces

The markup of a scanned unit consists of the texts of its pieces and of the placeholders for its
blocks. To run the reader on a source it is therefore enough to have the pieces: their characters
need not be packed into the texts of fragments and taken out of them again.
-/

set_option autoImplicit false
set_option linter.all false

namespace Chtl

namespace Scanned

/-- The characters of a placeholder. -/
def blockText (nonce : String) (kind : FragmentKind) (ordinal : Nat) : List Char :=
  "__CHTL_".toList ++ (kind.tokenTag.toList ++ ("_".toList ++ (nonce.toList ++ ("_".toList ++
    ((toString ordinal).toList ++ "__".toList)))))

theorem toList_eq_blockText (nonce : String) (kind : FragmentKind) (ordinal : Nat) :
    (Placeholder.ofBlock kind nonce ordinal).token.toList = blockText nonce kind ordinal :=
  Placeholder.toList_ofBlock kind nonce ordinal

/-- The markup that pieces leave, `ordinal` blocks having gone before, with a text for a block. -/
def markupOf (block : FragmentKind → Nat → List Char) : (ordinal : Nat) → List Piece → List Char
  | _, [] => []
  | ordinal, .markup text :: rest => text ++ markupOf block ordinal rest
  | ordinal, .block kind _ _ :: rest => block kind ordinal ++ markupOf block (ordinal + 1) rest

/-- The unit that a source with these pieces and a nonce is. -/
def ofPieces (nonce : String) (source : List Char) (pieces : List Piece) : Scanned :=
  ⟨assemble nonce 0 0 pieces, Text.size source⟩

theorem image_assemble_eq_markupOf (nonce : String) (ordinal offset : Nat) (pieces : List Piece) :
    (assemble nonce ordinal offset pieces).flatMap Fragment.image =
      markupOf (blockText nonce) ordinal pieces := by
  induction pieces generalizing ordinal offset with
  | nil => rfl
  | cons piece pieces ih =>
    cases piece with
    | markup text =>
      rw [assemble, List.flatMap_cons, ih, markupOf, Fragment.image_of_none rfl,
        String.toList_ofList]
    | block kind opening body =>
      rw [assemble, List.flatMap_cons, ih, markupOf, Fragment.image_of_some rfl,
        toList_eq_blockText]

theorem markup_ofPieces (nonce : String) (source : List Char) (pieces : List Piece) :
    (ofPieces nonce source pieces).markup = markupOf (blockText nonce) 0 pieces :=
  image_assemble_eq_markupOf _ _ _ pieces

end Scanned

namespace Document

/-- Reads the items of a text as the markup of a unit. -/
def readText (scanned : Scanned) (text : List Char) : Except MarkupError Document :=
  let setting : Markup.Setting := { scanned := scanned, origin := .markup scanned }
  let progress : Markup.Progress := { cursor := { rest := text } }
  match (Markup.rootItems (2 * text.length + 2) []).run setting |>.run progress with
  | .ok (nodes, progress) => .ok ⟨nodes, progress.consumed⟩
  | .error e => .error e

theorem ofScanned_ofPieces (nonce : String) (source : List Char) (pieces : List Piece) :
    ofScanned (.ofPieces nonce source pieces) =
      readText (.ofPieces nonce source pieces)
        (Scanned.markupOf (Scanned.blockText nonce) 0 pieces) := by
  rw [← Scanned.markup_ofPieces]
  rfl

/-- What a source is scanned and read into has a property if its pieces are read into that. -/
theorem exists_ofScanned_iff {source : List Char} {P : Scanned → Document → Prop} :
    (∃ pieces, Piece.cut source = .ok pieces ∧ ∃ d,
      readText (.ofPieces (numberNonce source) source pieces)
          (Scanned.markupOf (Scanned.blockText (numberNonce source)) 0 pieces) = .ok d ∧
        P (.ofPieces (numberNonce source) source pieces) d) ↔
    ∃ s, scan source = .ok s ∧ ∃ d, ofScanned s = .ok d ∧ P s d := by
  rw [scan_eq]
  cases hcut : Piece.cut source with
  | error e => simp
  | ok pieces =>
    simp only [Except.ok.injEq, exists_eq_left', ← ofScanned_ofPieces]
    rfl

/-- Whether a source is read into a document with a property is decided by reading its pieces. -/
instance decidableOfScanned (source : List Char) (P : Scanned → Document → Prop)
    [∀ s d, Decidable (P s d)] :
    Decidable (∃ s, scan source = .ok s ∧ ∃ d, ofScanned s = .ok d ∧ P s d) :=
  decidable_of_iff _ exists_ofScanned_iff

end Document

end Chtl
