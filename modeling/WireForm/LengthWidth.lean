import WireForm.Scalar.Integer

/-!
# Recorded lengths

Where an encoding records the length of a field it does so as an unsigned integer of one, two,
four or eight bytes. A narrow width saves space and limits how long a field can be.

## Main definitions

* `LengthWidth`, `LengthWidth.max` — the widths and the greatest length each can express
* `LengthWidth.ofLength?`, `LengthWidth.toLength?` — between lengths and recorded integers
* `LengthWidth.record`, `LengthWidth.recover` — the same, refusing what does not fit
-/

namespace WireForm

/-- The widths in which a length can be recorded. -/
inductive LengthWidth where
  | one | two | four | eight
  deriving DecidableEq, Repr

/-- The width used where none is chosen. -/
def LengthWidth.standard : LengthWidth := .four

instance : Inhabited LengthWidth := ⟨.standard⟩

namespace LengthWidth

/-- The kind of the integers that lengths are recorded as. -/
def kind : LengthWidth → IntKind
  | .one => .unsigned .one
  | .two => .unsigned .two
  | .four => .unsigned .four
  | .eight => .unsigned .eight

/-- The width of this name, which is that of its kind of integers. -/
def ofName? (name : String) : Option LengthWidth :=
  [one, two, four, eight].find? (·.kind.name == name)

/-- The number of bytes a recorded length takes. -/
def bytes (w : LengthWidth) : Nat := w.kind.width.bytes

/-- The codec of recorded lengths. -/
def codec (w : LengthWidth) : FixedCodec w.kind.Value := w.kind.codec

/-- The greatest length that fits. -/
def max (w : LengthWidth) : Nat := Nat.pow 256 w.bytes - 1

/-- A length as an integer of this width, if it fits. -/
def ofLength? (w : LengthWidth) (len : Nat) : Option w.kind.Value := w.kind.ofInt? len

/-- An integer of this width as a length, if it is one. -/
def toLength? (w : LengthWidth) (n : w.kind.Value) : Option Nat :=
  if n.val.toNat < wordLimit then some n.val.toNat else none

/-- A length as an integer of this width. -/
def record (w : LengthWidth) (len : Nat) : Outcome w.kind.Value :=
  match w.ofLength? len with
  | some n => .ok n
  | none => refuse (.lengthTooLarge len w.max)

/-- The length recorded in exactly these bytes. -/
def recover (w : LengthWidth) (bytes : Bytes) : Outcome Nat := do
  let n ← w.codec.decode bytes
  match w.toLength? n with
  | some len => .ok len
  | none => refuse (.sizeOverflow .recordedLength)

end LengthWidth

end WireForm
