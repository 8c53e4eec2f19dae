import WireForm.Composite.Record
import WireForm.Scalar.Basic
import WireForm.Scalar.Enumeration
import WireForm.Sequence
import WireForm.Text.Utf8

/-!
# The types that can be encoded

A `Shape α` says how the values of `α` are put together from integers, texts, sequences and records,
and thereby how they are encoded: `Shape.codec` follows the shape. A `FixedShape α` is one whose
encodings have a fixed size that can be written in place; only such types can stand in vectors and
lists, in packed records, and in front of the last field of a hybrid record.

A record names the type of its values and the nested pairs of its fields, which are in one-to-one
correspondence. A type can also stand for the values of a base type through two conversions that
need not be inverse to each other, and decoding may then refuse some base values.

## Main definitions

* `FixedShape`, `FixedShapes`, `FixedShape.codec`
* `Shape`, `Shapes`, `Shape.codec`
* `Shape.packedForm?`, `Shape.hybridForm?`, `Shape.dynamicForm?`, `Shape.mixedForm?` — the form
  that a record is declared in
-/

namespace WireForm

/-! ### Fixed size -/

mutual

/-- How the values of a type whose encodings have a fixed size are put together. -/
inductive FixedShape : Type → Type 1 where
  /-- One byte. -/
  | byte : FixedShape UInt8
  /-- An integer of some kind. -/
  | integer (kind : IntKind) : FixedShape kind.Value
  /-- A truth value. -/
  | bool : FixedShape Bool
  /-- A character. -/
  | char : FixedShape Char
  /-- A 32-bit floating-point number. -/
  | binary32 : FixedShape Binary32
  /-- A 64-bit floating-point number. -/
  | binary64 : FixedShape Binary64
  /-- As many values as the type says. -/
  | vector {α : Type} (elem : FixedShape α) (n : Nat) : FixedShape (Vector α n)
  /-- One of finitely many values told apart by integers. -/
  | enumeration {α : Type} (e : Enumeration α) : FixedShape α
  /-- Fields of fixed sizes. -/
  | packed {α τ : Type} (fields : FixedShapes τ) (iso : Iso α τ) : FixedShape α
  /-- A single field, encoded as itself. -/
  | transparent {α β : Type} (inner : FixedShape β) (iso : Iso α β) : FixedShape α
  /-- What a base type is converted to and from. -/
  | via {α β : Type} (base : FixedShape β) (toBase : α → β) (ofBase : β → Outcome α) :
    FixedShape α

/-- The shapes of the fields of a tuple, all of a fixed size. -/
inductive FixedShapes : Type → Type 1 where
  /-- No fields. -/
  | nil : FixedShapes Unit
  /-- A field in front of others. -/
  | cons {α τ : Type} (head : FixedShape α) (tail : FixedShapes τ) : FixedShapes (α × τ)

end

mutual

/-- The codec of a fixed shape. -/
def FixedShape.codec {α : Type} : FixedShape α → FixedCodec α
  | .byte => byteCodec
  | .integer kind => kind.codec
  | .bool => boolCodec
  | .char => charCodec
  | .binary32 => Binary32.codec
  | .binary64 => Binary64.codec
  | .vector elem n => vectorCodec elem.codec n
  | .enumeration e => e.codec
  | .packed fields iso => ((Tuple.packed fields.codecs).imap iso).codec
  | .transparent inner iso => inner.codec.imap iso
  | .via base toBase ofBase => base.codec.via toBase ofBase

/-- The codecs of fixed shapes. -/
def FixedShapes.codecs {τ : Type} : FixedShapes τ → FixedCodecs τ
  | .nil => .nil
  | .cons head tail => .cons head.codec tail.codecs

end

/-! ### Any size -/

mutual

/-- How the values of a type are put together. -/
inductive Shape : Type → Type 1 where
  /-- A shape of a fixed size. -/
  | fixed {α : Type} (shape : FixedShape α) : Shape α
  /-- A string. -/
  | text : Shape String
  /-- A natural number of any size. -/
  | natural : Shape Nat
  /-- An integer of any size. -/
  | integer : Shape Int
  /-- A list of values of a fixed size. -/
  | list {α : Type} (elem : FixedShape α) : Shape (List α)
  /-- A sequence of values of any size. -/
  | sequence {α : Type} (width : LengthWidth) (elem : Shape α) : Shape (List α)
  /-- Fields of fixed sizes, and one that takes what is left. -/
  | hybrid {α σ β : Type} (head : FixedShapes σ) (last : Shape β) (iso : Iso α (σ × β)) : Shape α
  /-- Fields behind a header of their lengths. -/
  | dynamic {α τ : Type} (width : LengthWidth) (fields : Shapes τ) (iso : Iso α τ) : Shape α
  /-- Fields with lengths in front of them where needed. -/
  | mixed {α τ : Type} (width : LengthWidth) (fields : Shapes τ) (iso : Iso α τ) : Shape α
  /-- A single field, encoded as itself. -/
  | transparent {α β : Type} (inner : Shape β) (iso : Iso α β) : Shape α
  /-- What a base type is converted to and from. -/
  | via {α β : Type} (base : Shape β) (toBase : α → β) (ofBase : β → Outcome α) : Shape α

/-- The shapes of the fields of a tuple. -/
inductive Shapes : Type → Type 1 where
  /-- No fields. -/
  | nil : Shapes Unit
  /-- A field in front of others. -/
  | cons {α τ : Type} (head : Shape α) (tail : Shapes τ) : Shapes (α × τ)

end

/-- Natural numbers, in as few bytes as hold them. -/
def naturalCodec : Codec Nat where
  size? := none
  append n := fun out => (.ok (), out ++ BigEndian.encodeNat n)
  decode bytes := .ok (BigEndian.decode bytes)

/-- Integers, in as few bytes of two's complement as hold them. -/
def integerCodec : Codec Int where
  size? := none
  append n := fun out => (.ok (), out ++ BigEndian.encodeInt n)
  decode bytes := .ok (BigEndian.decodeInt bytes)

mutual

/-- The codec of a shape. -/
def Shape.codec {α : Type} : Shape α → Codec α
  | .fixed shape => shape.codec.toCodec
  | .text => textCodec
  | .natural => naturalCodec
  | .integer => integerCodec
  | .list elem => listCodec elem.codec
  | .sequence width elem => sequenceCodec width elem.codec
  | .hybrid head last iso =>
    let sizes := head.codecs.sizes ++ [last.codec.size?]
    ((Tuple.hybrid head.codecs last.codec).imap iso).codec (Length.total? sizes)
  | .dynamic width fields iso => ((Tuple.dynamic fields.codecs).imap iso).codec width
  | .mixed width fields iso =>
    ((Record.mixed fields.codecs).imap iso).codec width (Length.total? fields.codecs.sizes)
  | .transparent inner iso => inner.codec.imap iso
  | .via base toBase ofBase => base.codec.via toBase ofBase

/-- The codecs of shapes. -/
def Shapes.codecs {τ : Type} : Shapes τ → Codecs τ
  | .nil => .nil
  | .cons head tail => .cons head.codec tail.codecs

end

/-- Unsigned integers of a width. -/
def FixedShape.unsigned (width : ByteWidth) : FixedShape (IntKind.unsigned width).Value :=
  .integer _

/-- Signed integers of a width. -/
def FixedShape.signed (width : ByteWidth) : FixedShape (IntKind.twosComplement width).Value :=
  .integer _

namespace Shape

variable {α : Type}

/-- The shape as one that can be written in place, if it is one. -/
def fixed? : Shape α → Option (FixedShape α)
  | .fixed shape => some shape
  | _ => none

/-- The form of a packed record. -/
def packedForm? : Shape α → Option (PackedForm α)
  | .fixed (.packed fields iso) => some ((Tuple.packed fields.codecs).imap iso)
  | _ => none

/-- The form of a hybrid record. -/
def hybridForm? : Shape α → Option (HybridForm α)
  | .hybrid head last iso => some ((Tuple.hybrid head.codecs last.codec).imap iso)
  | _ => none

/-- The form of a dynamic record. -/
def dynamicForm? : Shape α → Option (DynamicForm α)
  | .dynamic _ fields iso => some ((Tuple.dynamic fields.codecs).imap iso)
  | _ => none

/-- The form of a mixed record. -/
def mixedForm? : Shape α → Option (MixedForm α)
  | .mixed _ fields iso => some ((Record.mixed fields.codecs).imap iso)
  | _ => none

end Shape

end WireForm
