import WireForm.Length
import WireForm.Step

/-!
# Codecs

A `Codec α` appends the encoding of a value to an output buffer and decodes exactly the bytes it
appended. It is classified once, by `size?`: a known size promises that every encoding has it, an
unknown one that whoever places the encoding before other data records its length.

A `FixedCodec α` moreover overwrites a slice of the right length in place, and encodes and decodes
runs of values with nothing between them. Its `size` is stated beside `size?`, and its `store`
beside `append`: that they agree is for theorems to say.

## Main definitions

* `Codec`, `Codec.encode` — and the encoding into an empty buffer
* `FixedCodec` — codecs of a fixed size
* `appendStored` — the appending that a `store` gives
* `expectLength` — the check of a byte string's length
* `appendEach`, `decodeChunks` — runs of values, one after the other
* `Iso`, `Codec.imap`, `FixedCodec.imap` — the same codec for a type with the same values
-/

namespace WireForm

/-- How the values of a type are encoded and decoded. Codecs live one universe above their values,
as lists of codecs do, so that one recursion can compute both. -/
structure Codec (α : Type) : Type 1 where
  /-- The size of every encoding, if it does not depend on the value. -/
  size? : Option Nat
  /-- Append the encoding of a value to the buffer. A failure may leave a part of it. -/
  append : α → Step Bytes Unit
  /-- The value that exactly these bytes encode. -/
  decode : Bytes → Outcome α

/-- How the values of a type are encoded when all encodings have one size. -/
structure FixedCodec (α : Type) : Type 1 extends Codec α where
  /-- The size of every encoding. -/
  size : Nat
  /-- Overwrite a slice, which should have `size` bytes, with the encoding of a value. -/
  store : α → Bytes → Outcome Bytes
  /-- Append the encodings of a list of values. -/
  appendAll : List α → Step Bytes Unit
  /-- The values whose encodings, one after the other, these bytes are. -/
  decodeAll : Bytes → Outcome (List α)

variable {α β : Type}

/-- The encoding of a value in a buffer of its own. -/
def Codec.encode (c : Codec α) (a : α) : Outcome Bytes :=
  match c.append a [] with
  | (.ok _, out) => .ok out
  | (.error fault, _) => .error fault

/-- Whether all encodings have one size. -/
def Codec.isSized (c : Codec α) : Bool := c.size?.isSome

/-- Refuse `bytes` unless there are exactly `expected` of them. -/
def expectLength (expected : Nat) (bytes : Bytes) : Outcome Unit :=
  if bytes.length = expected then .ok () else refuse (.invalidLength expected bytes.length)

/-- Append `size` zero bytes to the buffer, and store `a` in them. -/
def appendStored (size : Nat) (store : α → Bytes → Outcome Bytes) (a : α) : Step Bytes Unit :=
  fun out =>
    match store a (List.replicate size 0) with
    | .ok stored => (.ok (), out ++ stored)
    | .error fault => (.error fault, out ++ List.replicate size 0)

/-- Append the encoding of a value through `store`. -/
def FixedCodec.appendFixed (c : FixedCodec α) (a : α) : Step Bytes Unit :=
  appendStored c.size c.store a

/-- Store a value in a buffer that has to have exactly the codec's size. -/
def FixedCodec.storeExact (c : FixedCodec α) (a : α) (dst : Bytes) : Outcome Bytes :=
  if dst.length = c.size then c.store a dst else crash

/-! ### Runs of values -/

/-- Append the values of a list one after the other. -/
def appendEach (append : α → Step Bytes Unit) : List α → Step Bytes Unit
  | [] => pure ()
  | a :: as => do
    append a
    appendEach append as

/-- The first `count` chunks of `size` bytes each, in front of which come those in `done`,
reversed. -/
def chunksFrom (size : Nat) : Nat → Bytes → List Bytes → List Bytes
  | 0, _, done => done.reverse
  | count + 1, bytes, done => chunksFrom size count (bytes.drop size) (bytes.take size :: done)

/-- All whole chunks of `size` bytes. There are none of no bytes. -/
def chunks (size : Nat) (bytes : Bytes) : Outcome (List Bytes) :=
  if size = 0 then crash else .ok (chunksFrom size (bytes.length / size) bytes [])

/-- Whether `bytes` fails to be a whole number of encodings of `size` bytes. No length is a whole
number of encodings of no bytes. -/
def isRagged (size : Nat) (bytes : Bytes) : Outcome Bool :=
  if size = 0 then .ok true else (Length.rem bytes.length size).map (· != 0)

/-- Decode a run of encodings of `size` bytes each, which have to fill `bytes`. When the size is
zero, nothing can be told from the bytes, and only the empty run is accepted. -/
def decodeChunks (size : Nat) (decode : Bytes → Outcome α) (bytes : Bytes) :
    Outcome (List α) := do
  if ← isRagged size bytes then
    if bytes.isEmpty then .ok [] else refuse (.misaligned size bytes.length)
  else
    (← chunks size bytes).mapM decode

/-! ### The same encoding for another type -/

/-- Two types with the same values. -/
structure Iso (α β : Type) where
  /-- From the first type to the second. -/
  forth : α → β
  /-- And back. -/
  back : β → α
  /-- Going there and back changes nothing. -/
  back_forth : ∀ a, back (forth a) = a
  /-- Nor does going back and there. -/
  forth_back : ∀ b, forth (back b) = b

/-- A type has the same values as itself. -/
def Iso.refl (α : Type) : Iso α α := ⟨id, id, fun _ => rfl, fun _ => rfl⟩

/-- Encode `α` as the `β` it stands for. -/
def Codec.imap (c : Codec β) (iso : Iso α β) : Codec α where
  size? := c.size?
  append a := c.append (iso.forth a)
  decode bytes := (c.decode bytes).map iso.back

/-- Encode `α` as the base type `β`, converting in both directions. The conversions need not be
inverse to each other, and decoding may refuse what it converts. -/
def Codec.via (c : Codec β) (toBase : α → β) (ofBase : β → Outcome α) : Codec α where
  size? := c.size?
  append a := c.append (toBase a)
  decode bytes := do ofBase (← c.decode bytes)

/-- Give `c`, whose size is fixed, the run operations that go element by element. -/
def Codec.fixed (c : Codec α) (size : Nat) (store : α → Bytes → Outcome Bytes) : FixedCodec α where
  toCodec := c
  size := size
  store := store
  appendAll := appendEach (appendStored size store)
  decodeAll := decodeChunks size c.decode

/-- Encode `α` as the `β` of a fixed size that it stands for. -/
def FixedCodec.imap (c : FixedCodec β) (iso : Iso α β) : FixedCodec α :=
  (c.toCodec.imap iso).fixed c.size fun a dst => c.store (iso.forth a) dst

/-- Encode `α` as a base type of a fixed size, converting in both directions. -/
def FixedCodec.via (c : FixedCodec β) (toBase : α → β) (ofBase : β → Outcome α) : FixedCodec α :=
  (c.toCodec.via toBase ofBase).fixed c.size fun a dst => c.store (toBase a) dst

end WireForm
