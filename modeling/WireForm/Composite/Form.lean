import WireForm.Field.Reader
import WireForm.Field.Writer

/-!
# Four ways to put fields together

A record is the concatenation of its fields. The forms differ in how they keep apart where one field
ends and the next begins:

* *packed* — all fields have a fixed size, and nothing is recorded;
* *hybrid* — all fields but the last have a fixed size, and the last takes what is left;
* *dynamic* — a header has the lengths of all fields but the last;
* *mixed* — each field whose size depends on its value is preceded by its length, save the last.

A form says how the fields of a type are written and read, and here are the encodings that come of
it. Dynamic and mixed forms leave the width of recorded lengths open.

## Main definitions

* `PackedForm`, `HybridForm`, `DynamicForm`, `MixedForm` — writing and reading fields
* `…Form.encode`, `…Form.append`, `…Form.decode` — the encodings
* `…Form.codec` — the codec of a type in that form
* `…Form.imap` — the same form for a type with the same values
-/

namespace WireForm

variable {α β : Type}

/-- How the fields of a type are put together when all have a fixed size. -/
structure PackedForm (α : Type) where
  /-- The sum of the sizes of all fields. -/
  totalSize : Nat
  /-- Overwrite a slice, which should have `totalSize` bytes, with all fields. -/
  store : α → Bytes → Outcome Bytes
  /-- Read all fields. -/
  read : Step View α

/-- How the fields of a type are put together when all but the last have a fixed size. -/
structure HybridForm (α : Type) where
  /-- The sum of the sizes of all fields but the last. -/
  headSize : Nat
  /-- Append all fields. -/
  write : α → Step Bytes Unit
  /-- Read all fields. -/
  read : Step View α

/-- How the fields of a type are put together behind a header of their lengths. -/
structure DynamicForm (α : Type) where
  /-- The number of fields. -/
  fieldCount : Nat
  /-- The encoding of each field, in order. -/
  encodeFields : α → Outcome (List Bytes)
  /-- Read all fields, given their lengths. -/
  read : List Nat → Step View α

/-- How the fields of a type are put together with lengths in front of them where needed. -/
structure MixedForm (α : Type) where
  /-- Append all fields. -/
  write : LengthWidth → α → Step Bytes Unit
  /-- Read all fields. -/
  read : LengthWidth → Step View α

/-- What a step appends to an empty buffer. -/
def appended (x : Step Bytes Unit) : Outcome Bytes :=
  match x [] with
  | (.ok _, out) => .ok out
  | (.error fault, _) => .error fault

namespace PackedForm

/-- The packed encoding. -/
def encode (f : PackedForm α) (a : α) : Outcome Bytes := f.store a (List.replicate f.totalSize 0)

/-- Overwrite a buffer, which has to have exactly the total size, with the packed encoding. -/
def storeExact (f : PackedForm α) (a : α) (dst : Bytes) : Outcome Bytes :=
  if dst.length = f.totalSize then f.store a dst else crash

/-- Append the packed encoding. -/
def append (f : PackedForm α) : α → Step Bytes Unit := appendStored f.totalSize f.store

/-- Decode a packed encoding, after a check of its length. -/
def decode (f : PackedForm α) (bytes : Bytes) : Outcome α :=
  if bytes.length = f.totalSize then Reader.decodeWith f.read bytes
  else refuse (.sizeMismatch f.totalSize bytes.length)

/-- The packed codec. -/
def codec (f : PackedForm α) : FixedCodec α :=
  Codec.fixed { size? := some f.totalSize, append := f.append, decode := f.decode }
    f.totalSize f.store

/-- The same form for a type with the same values. -/
def imap (f : PackedForm β) (iso : Iso α β) : PackedForm α where
  totalSize := f.totalSize
  store a := f.store (iso.forth a)
  read := do return iso.back (← f.read)

end PackedForm

namespace HybridForm

/-- The hybrid encoding. -/
def encode (f : HybridForm α) (a : α) : Outcome Bytes := appended (f.write a)

/-- Decode a hybrid encoding. -/
def decode (f : HybridForm α) : Bytes → Outcome α := Reader.decodeWith f.read

/-- The hybrid codec, of a type whose encodings have size `size?`. -/
def codec (f : HybridForm α) (size? : Option Nat) : Codec α where
  size? := size?
  append := f.write
  decode := f.decode

/-- The same form for a type with the same values. -/
def imap (f : HybridForm β) (iso : Iso α β) : HybridForm α where
  headSize := f.headSize
  write a := f.write (iso.forth a)
  read := do return iso.back (← f.read)

end HybridForm

namespace DynamicForm

/-- Append the dynamic encoding. -/
def append (f : DynamicForm α) (w : LengthWidth) (a : α) : Step Bytes Unit := do
  let fields ← Step.lift (f.encodeFields a)
  Writer.dynamic w fields

/-- The dynamic encoding. -/
def encode (f : DynamicForm α) (w : LengthWidth) (a : α) : Outcome Bytes := appended (f.append w a)

/-- Decode a dynamic encoding. -/
def decode (f : DynamicForm α) (w : LengthWidth) : Bytes → Outcome α :=
  Reader.decodeWith do
    let lens ← Reader.dynamicHeader w f.fieldCount
    f.read lens

/-- The dynamic codec. The header makes its size depend on the width alone, but none is promised. -/
def codec (f : DynamicForm α) (w : LengthWidth) : Codec α where
  size? := none
  append := f.append w
  decode := f.decode w

/-- The same form for a type with the same values. -/
def imap (f : DynamicForm β) (iso : Iso α β) : DynamicForm α where
  fieldCount := f.fieldCount
  encodeFields a := f.encodeFields (iso.forth a)
  read lens := do return iso.back (← f.read lens)

end DynamicForm

namespace MixedForm

/-- The mixed encoding. -/
def encode (f : MixedForm α) (w : LengthWidth) (a : α) : Outcome Bytes := appended (f.write w a)

/-- Decode a mixed encoding. -/
def decode (f : MixedForm α) (w : LengthWidth) : Bytes → Outcome α := Reader.decodeWith (f.read w)

/-- The mixed codec, of a type whose encodings have size `size?`. -/
def codec (f : MixedForm α) (w : LengthWidth) (size? : Option Nat) : Codec α where
  size? := size?
  append := f.write w
  decode := f.decode w

/-- The same form for a type with the same values. -/
def imap (f : MixedForm β) (iso : Iso α β) : MixedForm α where
  write w a := f.write w (iso.forth a)
  read w := do return iso.back (← f.read w)

end MixedForm

end WireForm
