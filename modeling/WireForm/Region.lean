import WireForm.Codec
import WireForm.View

/-!
# Windows onto a buffer that can be written

A `Region` is a window of a buffer through which the buffer is changed. Writing goes from the front
and moves the window on; an inner window can be cut out, written through, and given back, which
leaves the outer window where it was.

Where the window begins and the offset that it reports are counted separately, and so is whether a
range lies in the window: it is checked first, and then the window is cut, which would crash. That
the two agree is for theorems to say.

## Main definitions

* `Region`, `Region.bytes` — a window and what it shows
* `Region.advance` — giving up the first bytes
* `Region.take`, `Region.write`, `Region.put` — steps that write at the front and move on
* `Region.fill` — overwriting the whole window
* `Region.sub`, `Region.rejoin` — an inner window, and the outer one after its use
-/

namespace WireForm

/-- A window onto a buffer. -/
structure Region where
  /-- The whole buffer. -/
  buffer : Bytes
  /-- Where the window begins. -/
  start : Nat
  /-- How many bytes it has. -/
  len : Nat
  /-- Where it is said to begin. -/
  offset : Nat
  deriving DecidableEq, Repr

namespace Region

variable {α : Type}

/-- The window onto a whole buffer. -/
def ofBytes (buffer : Bytes) : Region := ⟨buffer, 0, buffer.length, 0⟩

/-- The bytes in the window. -/
def bytes (r : Region) : Bytes := (r.buffer.drop r.start).take r.len

/-- Whether the window has no bytes. -/
def isEmpty (r : Region) : Bool := r.len == 0

/-- Put `src` in place of as many bytes from the beginning of the window. -/
def overwrite (r : Region) (src : Bytes) : Region :=
  { r with buffer := r.buffer.take r.start ++ src ++ r.buffer.drop (r.start + src.length) }

/-- The window without any bytes, as it is left by what took them and crashed. -/
def lost (r : Region) : Region := { r with len := 0 }

/-- Give up the first `count` bytes, which the window has to have, and count them. -/
def advance (count : Nat) : Step Region Unit := fun r =>
  if r.len < count then (crash, r.lost)
  else
    let behind := { r with start := r.start + count, len := r.len - count }
    match Length.add r.offset count with
    | .ok offset => (.ok (), { behind with offset := offset })
    | .error fault => (.error fault, behind)

/-- Take the first `len` bytes out of the window, putting in their place what `edit` makes of them.
When there are fewer, nothing changes. -/
def take (len : Nat) (edit : Bytes → Bytes) : Step Region Unit := fun r =>
  match checkedRange r.offset r.len 0 len with
  | .error fault => (.error fault, r)
  | .ok _ =>
    match advance len r with
    | (.ok _, r') => (.ok (), { r' with buffer := (r.overwrite (edit (r.bytes.take len))).buffer })
    | (.error fault, r') => (.error fault, r')

/-- Copy `src` to the front of the window, and move past it. -/
def write (src : Bytes) : Step Region Unit := take src.length fun _ => src

/-- Store a value of a fixed size at the front of the window, and move past it. The window has to
have room for it: without, it is lost, and nothing is written. -/
def put (c : FixedCodec α) (a : α) : Step Region Unit := fun r =>
  if r.len < c.size then (crash, r.lost)
  else
    match c.store a (r.bytes.take c.size) with
    | .error fault => (.error fault, r.lost)
    | .ok stored => advance c.size (r.overwrite stored)

/-- Set every byte of the window. -/
def fill (byte : UInt8) (r : Region) : Region := r.overwrite (List.replicate r.len byte)

/-- The window onto the `len` bytes that begin `start` bytes into this one. -/
def sub (r : Region) (start len : Nat) : Outcome Region := do
  let (start, stop) ← checkedRange r.offset r.len start len
  if start ≤ stop ∧ stop ≤ r.len then
    let offset ← Length.add r.offset start
    return ⟨r.buffer, r.start + start, stop - start, offset⟩
  else crash

/-- The outer window after `inner`, cut out of it, was written through. -/
def rejoin (r inner : Region) : Region := { r with buffer := inner.buffer }

end Region

end WireForm
