import WireForm.Field.Reader
import WireForm.Field.Writer

/-!
# Runs of values of one type

Values of a fixed size stand next to each other, as a list of any length or as a vector of a length
that is part of the type. Values of any type make a sequence, in which each that has no fixed size
is preceded by its length, the last included, so that a sequence ends where its bytes do.

Values of no bytes leave no trace, so their number cannot be told from a sequence or a list.

## Main definitions

* `listCodec` — lists of values of a fixed size
* `vectorCodec` — vectors of values of a fixed size
* `appendSequence`, `decodeSequence`, `sequenceCodec` — sequences of any values
-/

namespace WireForm

variable {α : Type}

/-- Lists of values of a fixed size, next to each other. -/
def listCodec (c : FixedCodec α) : Codec (List α) where
  size? := none
  append := c.appendAll
  decode := c.decodeAll

/-! ### Vectors -/

/-- Overwrite whole chunks of `dst` with values, as far as there are both. -/
def storeEach (c : FixedCodec α) : List α → Bytes → Outcome Bytes
  | [], dst => .ok dst
  | a :: as, dst =>
    if dst.length < c.size then .ok dst
    else do
      let stored ← c.store a (dst.take c.size)
      let rest ← storeEach c as (dst.drop c.size)
      return stored ++ rest

/-- Overwrite a slice with the values of a vector. Values of no bytes leave it alone. -/
def storeVector {n : Nat} (c : FixedCodec α) (values : Vector α n) (dst : Bytes) : Outcome Bytes :=
  if c.size = 0 then .ok dst else storeEach c values.toList dst

/-- The values of a vector of `n`, which these bytes have to hold exactly. -/
def decodeVector (c : FixedCodec α) (n : Nat) (bytes : Bytes) : Outcome (Vector α n) := do
  expectLength (c.size * n) bytes
  let values ←
    if c.size = 0 then (List.replicate n []).mapM c.decode else c.decodeAll bytes
  if h : values.length = n then return ⟨values.toArray, by simp [h]⟩
  else refuse (.invalidLength n values.length)

/-- Vectors of `n` values of a fixed size, next to each other. -/
def vectorCodec (c : FixedCodec α) (n : Nat) : FixedCodec (Vector α n) :=
  Codec.fixed
    { size? := some (c.size * n)
      append := appendStored (c.size * n) (storeVector c)
      decode := decodeVector c n }
    (c.size * n) (storeVector c)

/-! ### Sequences -/

/-- Append the values of a sequence, each as a field that is not the last. -/
def appendSequence (w : LengthWidth) (c : Codec α) : List α → Step Bytes Unit :=
  appendEach fun a => Writer.field w c a false

/-- Read values until no bytes are left, at most `fuel` of them, in front of which come those in
`done`, reversed. -/
def itemsFrom (read : Step View α) : Nat → View → List α → Outcome (List α)
  | fuel, v, done =>
    if v.isEmpty then .ok done.reverse
    else match fuel with
      | 0 => crash
      | fuel + 1 =>
        match read v with
        | (.ok a, v') => itemsFrom read fuel v' (a :: done)
        | (.error fault, _) => .error fault

/-- The values of a sequence. A value takes a byte at least, so there are no more than bytes. -/
def decodeItems (w : LengthWidth) (c : Codec α) (bytes : Bytes) : Outcome (List α) :=
  itemsFrom (Reader.field w c false) bytes.length (View.ofBytes bytes) []

/-- The values of a sequence, whose bytes have to be a whole number of values where these have a
fixed size. -/
def decodeSequence (w : LengthWidth) (c : Codec α) (bytes : Bytes) : Outcome (List α) :=
  match c.size? with
  | none => decodeItems w c bytes
  | some size =>
    if bytes.isEmpty then .ok []
    else do
      if ← isRagged size bytes then refuse (.misaligned size bytes.length)
      decodeItems w c bytes

/-- Sequences of values of any type. -/
def sequenceCodec (w : LengthWidth) (c : Codec α) : Codec (List α) where
  size? := none
  append := appendSequence w c
  decode := decodeSequence w c

end WireForm
