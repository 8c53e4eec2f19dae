import WireForm.Error

/-!
# Lengths and offsets as machine words

Lengths and offsets are natural numbers below `2 ^ 64`. Where a sum or a product can leave that
range, it is one of the operations below, which say what happens then: `add?` and `mul?` give
nothing, `saturatingAdd` stops at the largest word, and `add` crashes.

## Main definitions

* `wordLimit` — the first number that is no machine word
* `Length.add?`, `Length.mul?`, `Length.saturatingAdd`, `Length.add`, `Length.sub`,
  `Length.rem`
* `Length.sum` — the sum of sizes of which some may be unknown, with its overflow
* `Length.total?` — the same sum without a bound
-/

namespace WireForm

/-- The first number that does not fit a machine word. -/
def wordLimit : Nat := Nat.pow 2 64

namespace Length

/-- The sum of two lengths, if it is a length. -/
def add? (a b : Nat) : Option Nat := if a + b < wordLimit then some (a + b) else none

/-- The product of two lengths, if it is a length. -/
def mul? (a b : Nat) : Option Nat := if a * b < wordLimit then some (a * b) else none

/-- The sum of two lengths, or the largest length. -/
def saturatingAdd (a b : Nat) : Nat := min (a + b) (wordLimit - 1)

/-- The sum of two lengths, for sums that are expected to be lengths. -/
def add (a b : Nat) : Outcome Nat := if a + b < wordLimit then .ok (a + b) else crash

/-- The difference of two lengths, for differences that are expected to be lengths. -/
def sub (a b : Nat) : Outcome Nat := if b ≤ a then .ok (a - b) else crash

/-- The remainder on division, for divisors that are expected to be positive. -/
def rem (a b : Nat) : Outcome Nat := if b = 0 then crash else .ok (a % b)

/-- Add up `sizes` on top of `total`, up to the first unknown one, which makes the sum unknown. -/
def sumFrom (total : Nat) : List (Option Nat) → Outcome (Option Nat)
  | [] => .ok (some total)
  | some size :: sizes =>
    match add total size with
    | .ok total => sumFrom total sizes
    | .error fault => .error fault
  | none :: _ => .ok none

/-- The sum of `sizes`: unknown when one of them is, a crash when it is no length. -/
def sum (sizes : List (Option Nat)) : Outcome (Option Nat) := sumFrom 0 sizes

/-- The sum of `sizes` as a natural number, unknown when one of them is. -/
def total? : List (Option Nat) → Option Nat
  | [] => some 0
  | some size :: sizes => (total? sizes).map (size + ·)
  | none :: _ => none

end Length

end WireForm
