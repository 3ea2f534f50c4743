import Chtl.Digest.Sha256
import Chtl.Fragment.Piece
import Chtl.Source.Location

/-!
# Scanned sources

A scanned source is its list of fragments. The markup with placeholders in place of blocks, and the
way back from an offset in that markup to an offset in the source, are both read off the list.
-/

set_option autoImplicit false
set_option linter.all false

namespace Chtl

open Text

structure ScanError where
  kind : FragmentKind
  start : Nat
  location : Location
  deriving DecidableEq, Repr

namespace ScanError

def message (e : ScanError) : String :=
  "unterminated " ++ e.kind.word ++ " block starting at line " ++ toString e.location.line ++
    ", column " ++ toString e.location.column

def span (e : ScanError) : Span := .point e.start

end ScanError

structure Scanned where
  fragments : List Fragment
  sourceSize : Nat
  deriving DecidableEq, Repr

namespace Scanned

/-- The fragments of pieces that start at `offset`, `ordinal` blocks having gone before. -/
def assemble (nonce : String) : (ordinal offset : Nat) → List Piece → List Fragment
  | _, _, [] => []
  | ordinal, offset, .markup text :: rest =>
    let range : Span := ⟨offset, offset + size text⟩
    ⟨.markup, String.ofList text, range, range, none⟩ :: assemble nonce ordinal range.stop rest
  | ordinal, offset, .block kind opening body :: rest =>
    let inner := offset + size opening
    let range : Span := ⟨offset, inner + size body + 1⟩
    ⟨kind, String.ofList body, range, ⟨inner, inner + size body⟩,
        some (.ofBlock kind nonce ordinal)⟩ ::
      assemble nonce (ordinal + 1) range.stop rest

/-- The markup of the unit: every block is replaced by its placeholder. -/
def markup (s : Scanned) : List Char :=
  s.fragments.flatMap Fragment.image

/-- The source offset of an offset in the images of the fragments. -/
def sourceOffset (total : Nat) : List Fragment → Nat → Nat
  | [], _ => total
  | f :: fs, m =>
    if m < f.imageSize then
      match f.placeholder with
      | some _ => f.range.start
      | none => f.range.start + m
    else sourceOffset total fs (m - f.imageSize)

/-- The source offset of an offset in the markup. A placeholder stands for the start of its block,
and the end of the markup for the end of the source. -/
def toSource (s : Scanned) (m : Nat) : Nat :=
  sourceOffset s.sourceSize s.fragments m

def spanToSource (s : Scanned) (span : Span) : Span :=
  let start := s.toSource span.start
  ⟨start, max (s.toSource span.stop) start⟩

/-- The fragment that a placeholder stands for. -/
def fragment? (s : Scanned) (token : String) : Option Fragment :=
  s.fragments.find? fun f => f.placeholder.any (·.token == token)

/-- The fragment whose range holds a source offset; from the end on, the last one. -/
def fragmentAt? (s : Scanned) (offset : Nat) : Option Fragment :=
  s.fragments.reverse.find? fun f => decide (f.range.start ≤ offset)

end Scanned

/-- The first eight hexadecimal digits of the digest of the source. -/
def unitNonce (source : List Char) : String :=
  Sha256.hex ((Sha256.digest (source.flatMap String.utf8EncodeChar)).take 4)

/-- Cuts a source into its fragments. -/
def scan (source : List Char) : Except ScanError Scanned :=
  match Piece.cut source with
  | .ok pieces => .ok ⟨Scanned.assemble (unitNonce source) 0 0 pieces, size source⟩
  | .error e => .error ⟨e.kind, e.start, .ofOffset source e.start⟩

end Chtl
