import WireForm.Composite.Tuple

/-!
# Records with a declaration

The fields of a declared record are visited one by one in the order of declaration. In the mixed
form each visit carries a flag which says whether the field is the last; the flags are computed from
the number of fields beforehand, for writing and for reading alike. The other forms are those of
tuples.

## Main definitions

* `lastFlags` — the flags of the fields of a record
* `Record.mixed` — the mixed form of a record
-/

namespace WireForm

/-- For each of `count` fields, whether it is the last. -/
def lastFlags (count : Nat) : List Bool := (List.range count).map fun index => index + 1 == count

example : lastFlags 0 = [] ∧ lastFlags 3 = [false, false, true] := by decide

namespace Record

/-- Append all fields, each with its flag. -/
def writeFlagged {τ : Type} (w : LengthWidth) : Codecs τ → List Bool → τ → Step Bytes Unit
  | .nil, _, _ => pure ()
  | .cons _ _, [], _ => Step.lift crash
  | .cons head tail, flag :: flags, (a, as) => do
    Writer.field w head a flag
    writeFlagged w tail flags as

/-- Read all fields, each with its flag. -/
def readFlagged {τ : Type} (w : LengthWidth) : Codecs τ → List Bool → Step View τ
  | .nil, _ => pure ()
  | .cons _ _, [] => Step.lift crash
  | .cons head tail, flag :: flags => do
    let a ← Reader.field w head flag
    let as ← readFlagged w tail flags
    return (a, as)

/-- Fields with lengths in front of them where needed. -/
def mixed {τ : Type} (fields : Codecs τ) : MixedForm τ where
  write w := writeFlagged w fields (lastFlags fields.count)
  read w := readFlagged w fields (lastFlags fields.count)

end Record

end WireForm
