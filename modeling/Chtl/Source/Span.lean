/-!
# Spans

A span is a half-open range of byte offsets into a source text.
-/

set_option autoImplicit false
set_option linter.all false

namespace Chtl

structure Span where
  start : Nat
  stop : Nat
  deriving DecidableEq, Repr, Inhabited

namespace Span

/-- The empty span at an offset. -/
def point (offset : Nat) : Span := ⟨offset, offset⟩

/-- The smallest span that covers both. -/
def cover (a b : Span) : Span := ⟨min a.start b.start, max a.stop b.stop⟩

def shift (a : Span) (by_ : Nat) : Span := ⟨a.start + by_, a.stop + by_⟩

def contains (a : Span) (offset : Nat) : Bool :=
  decide (a.start ≤ offset) && decide (offset < a.stop)

def size (a : Span) : Nat := a.stop - a.start

def isEmpty (a : Span) : Bool := a.start == a.stop

/-- The offsets as they are written in messages, `start..stop`. -/
def text (a : Span) : String := toString a.start ++ ".." ++ toString a.stop

end Span

end Chtl
