/-!
# Character classes given by ranges

A property of characters is a list of inclusive code point ranges. Code points below 128 are always
decided by a direct test, so the ranges start at 128.
-/

set_option autoImplicit false
set_option linter.all false

namespace Chtl.Text

/-- The inclusive code point ranges of a property, ascending. -/
abbrev Ranges := List (Nat × Nat)

/-- Whether one of the ranges holds the code point. -/
def Ranges.mem (ranges : Ranges) (n : Nat) : Bool :=
  ranges.any fun r => decide (r.1 ≤ n) && decide (n ≤ r.2)

end Chtl.Text
