import WireForm.LengthWidth
import WireForm.View

/-!
# Reading fields

The steps from which every record is decoded take bytes off the front of a view. Each checks that
the bytes are there before it takes them. What a step has taken stays taken when it fails later:
after a field that cannot be decoded, the view stands behind that field.

## Main definitions

* `Reader.fixed`, `Reader.sized`, `Reader.rest` — a field of a fixed size, of a known length, and
  the field that takes all bytes left
* `Reader.length`, `Reader.measured` — a recorded length, and a field preceded by one
* `Reader.field` — a field of a mixed record
* `Reader.dynamicHeader` — the lengths of all fields of a dynamic record
* `Reader.finish`, `Reader.decodeWith` — that nothing is left over
-/

namespace WireForm.Reader

variable {α : Type}

/-- Read a field of a fixed size. -/
def fixed (c : FixedCodec α) : Step View α := do
  let bytes ← View.take c.size
  Step.lift (c.decode bytes)

/-- Read a field of `len` bytes. -/
def sized (c : Codec α) (len : Nat) : Step View α := do
  let bytes ← View.take len
  Step.lift (c.decode bytes)

/-- Read a field that takes all bytes left. -/
def rest (c : Codec α) : Step View α := do
  let bytes ← View.takeRest
  Step.lift (c.decode bytes)

/-- Read a recorded length. -/
def length (w : LengthWidth) : Step View Nat := do
  let bytes ← View.take w.bytes
  Step.lift (w.recover bytes)

/-- Read a field preceded by its length. -/
def measured (w : LengthWidth) (c : Codec α) : Step View α := do
  let len ← length w
  sized c len

/-- Read a field of a mixed record: of its own size, or all bytes left for the last, or preceded by
its length. -/
def field (w : LengthWidth) (c : Codec α) (isLast : Bool) : Step View α :=
  match c.size? with
  | some size => sized c size
  | none => if isLast then rest c else measured w c

/-- The sum of recorded lengths, if it is a length. -/
def sumLengths? : Nat → List Nat → Option Nat
  | total, [] => some total
  | total, len :: lens => (Length.add? total len).bind fun total => sumLengths? total lens

/-- Read the header of a dynamic record of `count` fields: the lengths of all of them, the last
being what the others leave. -/
def dynamicHeader (w : LengthWidth) : Nat → Step View (List Nat)
  | 0 => pure []
  | before + 1 =>
    match Length.mul? before w.bytes with
    | none => Step.refuse (.sizeOverflow .headerLength)
    | some headerLen => do
      let header ← View.take headerLen
      let lens ← Step.lift (chunks w.bytes header >>= (·.mapM w.recover))
      match sumLengths? 0 lens with
      | none => Step.refuse (.sizeOverflow .fieldLengths)
      | some total =>
        let v ← Step.get
        if v.len < total then Step.refuse (.bufferOverrun v.offset total v.len)
        else return lens ++ [v.len - total]

/-- Refuse a view in which bytes are left. -/
def finish (v : View) : Outcome Unit :=
  if v.isEmpty then .ok ()
  else do
    let actual ← Length.add v.offset v.len
    refuse (.sizeMismatch v.offset actual)

/-- Decode a byte string by a reading step that has to take all of it. -/
def decodeWith (read : Step View α) (bytes : Bytes) : Outcome α :=
  match read (View.ofBytes bytes) with
  | (.ok a, v) => (finish v).map fun _ => a
  | (.error fault, _) => .error fault

end WireForm.Reader
