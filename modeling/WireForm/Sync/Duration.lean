import WireForm.Length

/-!
# Spans of time

A span is counted in nanoseconds and written in the largest unit of which it has at least one, with
as many decimal places as are not zero.

## Main definitions

* `Duration`, `Duration.ofParts` — from seconds and nanoseconds
* `Duration.text`, `Duration.timedOut` — the span in words, and as the time after which a lock was
  not had
-/

namespace WireForm.Sync

/-- A span of time. -/
structure Duration where
  /-- Its length in nanoseconds. -/
  nanos : Nat
  deriving DecidableEq, Repr

namespace Duration

/-- The nanoseconds of a second. -/
def second : Nat := 1000000000

/-- The nanoseconds of a millisecond. -/
def milli : Nat := 1000000

/-- The nanoseconds of a microsecond. -/
def micro : Nat := 1000

/-- A span of whole seconds, which have to fit a machine word, and of nanoseconds. -/
def ofParts (seconds nanos : Nat) : Outcome Duration := do
  let seconds ← Length.add seconds (nanos / second)
  return ⟨seconds * second + nanos % second⟩

/-- A span of milliseconds. -/
def ofMillis (ms : Nat) : Duration := ⟨ms * milli⟩

/-- The decimal places of `part` out of `unit`, a power of ten, without the zeros at the end. -/
def places (part unit : Nat) : String :=
  if part = 0 then ""
  else
    let digits := (toString (unit + part)).toList.drop 1
    "." ++ String.ofList (digits.reverse.dropWhile (· == '0')).reverse

/-- A number of nanoseconds in a unit. -/
def inUnit (nanos unit : Nat) (symbol : String) : String :=
  toString (nanos / unit) ++ places (nanos % unit) unit ++ symbol

/-- A span in words. -/
def text (d : Duration) : String :=
  if second ≤ d.nanos then inUnit d.nanos second "s"
  else if milli ≤ d.nanos then inUnit d.nanos milli "ms"
  else if micro ≤ d.nanos then inUnit d.nanos micro "µs"
  else inUnit d.nanos 1 "ns"

/-- What is said of a lock that was not had within a span. -/
def timedOut (d : Duration) : String := "timed out after " ++ d.text

end Duration

end WireForm.Sync
