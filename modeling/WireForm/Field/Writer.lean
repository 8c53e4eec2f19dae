import WireForm.LengthWidth

/-!
# Writing fields

The steps from which every record encoding is built append to one output buffer. A field whose size
depends on its value is preceded by its length, which is known only once the field is written: room
for it is reserved, the field appended, and the length put in afterwards. When that fails, all that
was appended is cut off again.

## Main definitions

* `Writer.length` — a recorded length
* `Writer.measured` — a field preceded by its length
* `Writer.field` — a field preceded by its length where one is needed
* `Writer.dynamic` — encoded fields behind a header of their lengths
-/

namespace WireForm.Writer

variable {α : Type}

/-- Run a step, and cut the buffer back to the length it had when the step fails. -/
def rollingBack (x : Step Bytes α) : Step Bytes α := fun out =>
  match x out with
  | (.ok a, out') => (.ok a, out')
  | (.error fault, out') => (.error fault, out'.take out.length)

/-- Append zero bytes. -/
def reserve (count : Nat) : Step Bytes Unit := fun out => (.ok (), out ++ List.replicate count 0)

/-- Overwrite the `count` bytes at `start`, which the buffer has to have. -/
def patch (start count : Nat) (store : Bytes → Outcome Bytes) : Step Bytes Unit := fun out =>
  if out.length < start + count then (crash, out)
  else match store ((out.drop start).take count) with
    | .ok stored => (.ok (), out.take start ++ stored ++ out.drop (start + count))
    | .error fault => (.error fault, out)

/-- Append a length. -/
def length (w : LengthWidth) (len : Nat) : Step Bytes Unit := do
  w.codec.appendFixed (← Step.lift (w.record len))

/-- Append a field after room for its length, and put the length there. -/
def fillMeasured (w : LengthWidth) (c : Codec α) (a : α) (start : Nat) : Step Bytes Unit := do
  reserve w.bytes
  c.append a
  let len ← Step.lift (Length.sub (← Step.get).length (start + w.bytes))
  let recorded ← Step.lift (w.record len)
  patch start w.bytes (w.codec.store recorded)

/-- Append a field preceded by its length. A failure leaves the buffer as it was. -/
def measured (w : LengthWidth) (c : Codec α) (a : α) : Step Bytes Unit :=
  rollingBack do fillMeasured w c a (← Step.get).length

/-- Append a field of a mixed record: preceded by its length when its size depends on the value,
unless it is the last, which ends where the record does. -/
def field (w : LengthWidth) (c : Codec α) (a : α) (isLast : Bool) : Step Bytes Unit :=
  if c.isSized ∨ isLast then c.append a else measured w c a

/-- Append the lengths of all `fields`. -/
def lengths (w : LengthWidth) : List Bytes → Step Bytes Unit
  | [] => pure ()
  | field :: fields => do
    length w field.length
    lengths w fields

/-- Append encoded fields behind the lengths of all but the last. A failure leaves the buffer as it
was. -/
def dynamic (w : LengthWidth) (fields : List Bytes) : Step Bytes Unit := do
  rollingBack (lengths w fields.dropLast)
  fun out => (.ok (), out ++ fields.flatten)

end WireForm.Writer
