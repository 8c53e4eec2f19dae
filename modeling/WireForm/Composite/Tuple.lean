import WireForm.Composite.Form

/-!
# Tuples

The fields of a tuple are given by a list of codecs, and its values are nested pairs that end in a
unit. Writing and reading go down both lists together; the last field is told apart from the others
by being followed by none.

## Main definitions

* `Codecs`, `FixedCodecs` — the codecs of the fields of a tuple
* `Tuple.packed`, `Tuple.hybrid`, `Tuple.dynamic`, `Tuple.mixed` — the four forms
-/

namespace WireForm

/-- The codecs of the fields of a tuple. -/
inductive Codecs : Type → Type 1 where
  /-- No fields. -/
  | nil : Codecs Unit
  /-- A field in front of others. -/
  | cons {α τ : Type} (head : Codec α) (tail : Codecs τ) : Codecs (α × τ)

/-- The codecs of the fields of a tuple, all of a fixed size. -/
inductive FixedCodecs : Type → Type 1 where
  /-- No fields. -/
  | nil : FixedCodecs Unit
  /-- A field in front of others. -/
  | cons {α τ : Type} (head : FixedCodec α) (tail : FixedCodecs τ) : FixedCodecs (α × τ)

/-- The number of fields. -/
def Codecs.count {τ : Type} : Codecs τ → Nat
  | .nil => 0
  | .cons _ tail => tail.count + 1

/-- The sizes of the fields. -/
def Codecs.sizes {τ : Type} : Codecs τ → List (Option Nat)
  | .nil => []
  | .cons head tail => head.size? :: tail.sizes

/-- The sizes of the fields. -/
def FixedCodecs.sizes {τ : Type} : FixedCodecs τ → List (Option Nat)
  | .nil => []
  | .cons head tail => head.size? :: tail.sizes

/-- The sum of the sizes of the fields. -/
def FixedCodecs.totalSize {τ : Type} : FixedCodecs τ → Nat
  | .nil => 0
  | .cons head tail => head.size + tail.totalSize

namespace Tuple

/-! ### Packed -/

/-- Overwrite the front of `dst` with all fields. -/
def store {τ : Type} : FixedCodecs τ → τ → Bytes → Outcome Bytes
  | .nil, _, dst => .ok dst
  | .cons head tail, (a, as), dst =>
    if dst.length < head.size then crash
    else do
      let stored ← head.store a (dst.take head.size)
      let rest ← store tail as (dst.drop head.size)
      return stored ++ rest

/-- Read all fields. -/
def readFixed {τ : Type} : FixedCodecs τ → Step View τ
  | .nil => pure ()
  | .cons head tail => do
    let a ← Reader.fixed head
    let as ← readFixed tail
    return (a, as)

/-- Fields of fixed sizes, with nothing between them. -/
def packed {τ : Type} (fields : FixedCodecs τ) : PackedForm τ where
  totalSize := fields.totalSize
  store := store fields
  read := readFixed fields

/-! ### Hybrid -/

/-- Append all fields. -/
def writeFixed {τ : Type} : FixedCodecs τ → τ → Step Bytes Unit
  | .nil, _ => pure ()
  | .cons head tail, (a, as) => do
    head.appendFixed a
    writeFixed tail as

/-- Fields of fixed sizes, and one that takes what is left. -/
def hybrid {σ β : Type} (head : FixedCodecs σ) (last : Codec β) : HybridForm (σ × β) where
  headSize := head.totalSize
  write := fun (as, b) => do
    writeFixed head as
    last.append b
  read := do
    let as ← readFixed head
    let b ← Reader.rest last
    return (as, b)

/-! ### Dynamic -/

/-- The encoding of each field. -/
def encodeFields {τ : Type} : Codecs τ → τ → Outcome (List Bytes)
  | .nil, _ => .ok []
  | .cons head tail, (a, as) => do
    let field ← head.encode a
    let fields ← encodeFields tail as
    return field :: fields

/-- Read the fields from number `index` on, each of the length that `lens` has for it. -/
def readSized {τ : Type} (lens : List Nat) : Nat → Codecs τ → Step View τ
  | _, .nil => pure ()
  | index, .cons head tail =>
    match lens[index]? with
    | none => Step.lift crash
    | some len => do
      let a ← Reader.sized head len
      let as ← readSized lens (index + 1) tail
      return (a, as)

/-- Fields behind a header of their lengths. -/
def dynamic {τ : Type} (fields : Codecs τ) : DynamicForm τ where
  fieldCount := fields.count
  encodeFields := encodeFields fields
  read lens := readSized lens 0 fields

/-! ### Mixed -/

/-- Append all fields, the last without its length. -/
def writeMixed {τ : Type} (w : LengthWidth) : Codecs τ → τ → Step Bytes Unit
  | .nil, _ => pure ()
  | .cons last .nil, (a, _) => Writer.field w last a true
  | .cons head tail@(.cons ..), (a, as) => do
    Writer.field w head a false
    writeMixed w tail as

/-- Read all fields, the last without its length. -/
def readMixed {τ : Type} (w : LengthWidth) : Codecs τ → Step View τ
  | .nil => pure ()
  | .cons last .nil => do
    let a ← Reader.field w last true
    return (a, ())
  | .cons head tail@(.cons ..) => do
    let a ← Reader.field w head false
    let as ← readMixed w tail
    return (a, as)

/-- Fields with lengths in front of them where needed. -/
def mixed {τ : Type} (fields : Codecs τ) : MixedForm τ where
  write w := writeMixed w fields
  read w := readMixed w fields

end Tuple

end WireForm
