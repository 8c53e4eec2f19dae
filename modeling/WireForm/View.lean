import WireForm.Length
import WireForm.Step

/-!
# Windows onto a byte string

A `View` is a contiguous part of a byte string that remembers where in the whole it begins, so a
read past its end can say exactly where that happened. Every cut is checked first, and a cut that
does not fit is refused with the offset, the length asked for and the length available.

The bytes and the offset move separately: that they agree, and that no cut ever crashes, is for
theorems to say.

## Main definitions

* `View` — bytes, how many they are, and their offset
* `View.subspan`, `View.splitAt` — parts of a view
* `View.take`, `View.takeRest` — steps that remove bytes from the front
-/

namespace WireForm

/-- The range from `start` to `start + len` inside a window of `windowLen` bytes that begins at
`offset`, as a pair of bounds. -/
def checkedRange (offset windowLen start len : Nat) : Outcome (Nat × Nat) :=
  match Length.add? start len with
  | some stop => if stop ≤ windowLen then .ok (start, stop) else overrun
  | none => overrun
where
  /-- The refusal of a range that does not fit. -/
  overrun : Outcome (Nat × Nat) :=
    refuse (.bufferOverrun (Length.saturatingAdd offset start) len (windowLen - start))

/-- A window onto a byte string. -/
structure View where
  /-- The bytes in the window. -/
  bytes : Bytes
  /-- Where the window begins in the byte string it was cut from. -/
  offset : Nat
  /-- How many bytes the window has. -/
  len : Nat
  /-- The length is that of the bytes. -/
  len_eq : len = bytes.length

namespace View

/-- The window onto the whole of `bytes`. -/
def ofBytes (bytes : Bytes) : View := ⟨bytes, 0, bytes.length, rfl⟩

/-- Whether the window has no bytes. -/
def isEmpty (v : View) : Bool := v.len == 0

/-- Two windows are equal when their bytes and their offsets are. -/
protected theorem ext {v w : View} (hb : v.bytes = w.bytes) (ho : v.offset = w.offset) : v = w := by
  obtain ⟨b, o, l, hl⟩ := v
  obtain ⟨b', o', l', hl'⟩ := w
  obtain rfl : b = b' := hb
  obtain rfl : o = o' := ho
  obtain rfl : l = l' := hl.trans hl'.symm
  rfl

instance : BEq View := ⟨fun v w => v.bytes == w.bytes && v.offset == w.offset⟩

/-- The window from position `start` to position `stop`, which have to lie in order within it. -/
def slice (v : View) (start stop : Nat) : Outcome View := do
  let offset ← Length.add v.offset start
  if start ≤ stop ∧ stop ≤ v.len then
    return ⟨(v.bytes.drop start).take (stop - start), offset, min (stop - start) (v.len - start), by
      simp [v.len_eq]⟩
  else crash

/-- The window from position `start` to the end. -/
def sliceFrom (v : View) (start : Nat) : Outcome View := do
  let offset ← Length.add v.offset start
  if start ≤ v.len then
    return ⟨v.bytes.drop start, offset, v.len - start, by simp [v.len_eq]⟩
  else crash

/-- The window onto the `len` bytes that begin `start` bytes into this one. -/
def subspan (v : View) (start len : Nat) : Outcome View := do
  let (start, stop) ← checkedRange v.offset v.len start len
  v.slice start stop

/-- The two windows before and after position `mid`. -/
def splitAt (v : View) (mid : Nat) : Outcome (View × View) := do
  let head ← v.subspan 0 mid
  let tail ← v.sliceFrom mid
  return (head, tail)

/-- Remove the first `len` bytes. When there are fewer, the view stays as it was. -/
def take (len : Nat) : Step View Bytes := fun v =>
  match v.splitAt len with
  | .ok (head, tail) => (.ok head.bytes, tail)
  | .error fault => (.error fault, v)

/-- Remove all bytes that are left. -/
def takeRest : Step View Bytes := fun v =>
  match Length.add v.offset v.len with
  | .ok offset => (.ok v.bytes, ⟨[], offset, 0, rfl⟩)
  | .error fault => (.error fault, v)

end View

end WireForm
