import WireForm.Scalar.Integer
import WireForm.Sync.Consumer

/-!
# Parcels

The values that go through sessions: numbers of eight bytes with a sign, texts, and tickets, which
are numbers that nobody can copy. A transform takes parcels of one sort; arithmetic that leaves the
range of the numbers crashes, as does a transform that is given a parcel of another sort.

## Main definitions

* `Parcel` — the values
* `Handling`, `Handling.transform` — what can be done to them on the way
-/

namespace WireForm.Sync

/-- A value that goes through a session. -/
inductive Parcel where
  | number (n : Int)
  | text (s : String)
  | ticket (n : Int)
  deriving DecidableEq, Repr

/-- A number, if it is in range. -/
def Parcel.checked (n : Int) : Outcome Parcel :=
  match (IntKind.twosComplement .eight).ofInt? n with
  | some n => .ok (.number n.val)
  | none => crash

/-- What can be done to a parcel on its way to a consumer. -/
inductive Handling where
  /-- Add one. -/
  | increment
  /-- Add the number to itself. -/
  | double
  /-- Crash on negative numbers. -/
  | nonNegative
  /-- Write the number after a hash sign. -/
  | describe
  /-- Make a ticket of the number. -/
  | ticket
  /-- Count the bytes of the text. -/
  | length
  /-- Put an exclamation mark after the text. -/
  | exclaim
  /-- Read the number of the ticket. -/
  | number
  deriving DecidableEq, Repr

namespace Handling

/-- The transforms by name. A transform's place in this list is the label of its calls. -/
def named : List (String × Handling) :=
  [("inc", increment), ("double", double), ("non_negative", nonNegative), ("describe", describe),
    ("ticket", ticket), ("length", length), ("exclaim", exclaim), ("number", number)]

/-- The transform of this name. -/
def ofName? (name : String) : Option Handling := named.lookup name

/-- The label of a transform's calls. -/
def label (h : Handling) : Nat := named.findIdx (·.2 == h)

/-- What becomes of a parcel. -/
def apply : Handling → Parcel → Outcome Parcel
  | .increment, .number n => Parcel.checked (n + 1)
  | .double, .number n => Parcel.checked (n * 2)
  | .nonNegative, .number n => if n < 0 then crash else .ok (.number n)
  | .describe, .number n => .ok (.text ("#" ++ toString n))
  | .ticket, .number n => .ok (.ticket n)
  | .length, .text s => .ok (.number s.utf8ByteSize)
  | .exclaim, .text s => .ok (.text (s ++ "!"))
  | .number, .ticket n => .ok (.number n)
  | _, _ => crash

/-- The transform of parcels. -/
def transform (h : Handling) : Transform Parcel Parcel := ⟨h.label, h.apply⟩

end Handling

end WireForm.Sync
