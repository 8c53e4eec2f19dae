/-!
# Classes of characters

A class of characters that has no shorter description is a table of ranges of code points, each
with its first and its last, in ascending order.

## Main definitions

* `Ranges`, `Ranges.contains` — a table and the characters in it
-/

namespace WireForm

/-- Ranges of code points, each with its first and its last. -/
abbrev Ranges := List (Nat × Nat)

namespace Ranges

/-- Whether a character is in one of the ranges. -/
def contains (ranges : Ranges) (c : Char) : Bool :=
  ranges.any fun range => range.1 ≤ c.toNat && c.toNat ≤ range.2

end Ranges

end WireForm
