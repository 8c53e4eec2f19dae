import WireForm.Scalar.Integer

/-!
# Truth values, characters and floating-point numbers

A truth value is one byte, 0 or 1; a character is its scalar value in four bytes; a floating-point
number is its IEEE 754 interchange format in big-endian order.

Floating-point numbers are kept as bits, so that every NaN survives a round trip with its payload.
Their `==` is that of IEEE 754 all the same: a NaN equals nothing, and the two zeros are equal.

## Main definitions

* `boolCodec`, `charCodec`
* `Binary32`, `Binary64`, `Binary32.codec`, `Binary64.codec`
-/

namespace WireForm

/-- Truth values: one byte, 0 or 1. -/
def boolCodec : FixedCodec Bool :=
  Codec.fixed
    { size? := some 1
      append := fun b => byteCodec.append b.toUInt8
      decode := fun bytes => do
        let byte ← byteCodec.decode bytes
        if byte = 0 then return false
        else if byte = 1 then return true
        else refuse (.invalidDiscriminant "bool" byte.toNat) }
    1 fun b dst => storeFirst b.toUInt8 dst

/-- The number of bytes of a character. -/
def charBytes : Nat := 4

/-- Store the scalar value of a character. -/
def storeChar (c : Char) (dst : Bytes) : Outcome Bytes :=
  copyOver (BigEndian.encode charBytes c.toNat) dst

/-- The character with this scalar value, if there is one. -/
def charOfNat? (n : Nat) : Option Char :=
  if n.isValidChar then some (Char.ofNat n) else none

/-- Characters: the scalar value in four bytes. -/
def charCodec : FixedCodec Char :=
  Codec.fixed
    { size? := some charBytes
      append := appendStored charBytes storeChar
      decode := fun bytes => do
        expectLength charBytes bytes
        let n := BigEndian.decode bytes
        match charOfNat? n with
        | some c => return c
        | none => refuse (.invalidDiscriminant "char" n) }
    charBytes storeChar

/-! ### Floating-point numbers -/

/-- IEEE 754 equality of two bit patterns of one sign bit, then an exponent of which all bits are
set in `infinity`, then a fraction: equal patterns that are no NaN, or two zeros. -/
def ieeeEq (signBit infinity : Nat) (a b : Nat) : Bool :=
  let magnitude := fun n => n % signBit
  if magnitude a > infinity ∨ magnitude b > infinity then false
  else a == b || (magnitude a == 0 && magnitude b == 0)

/-- A number in the 32-bit binary interchange format. -/
structure Binary32 where
  /-- The bits, sign first. -/
  bits : BitVec 32
  deriving Repr

/-- A number in the 64-bit binary interchange format. -/
structure Binary64 where
  /-- The bits, sign first. -/
  bits : BitVec 64
  deriving Repr

instance : BEq Binary32 := ⟨fun a b => ieeeEq 0x80000000 0x7f800000 a.bits.toNat b.bits.toNat⟩

instance : BEq Binary64 :=
  ⟨fun a b => ieeeEq 0x8000000000000000 0x7ff0000000000000 a.bits.toNat b.bits.toNat⟩

/-- The codec of bit patterns of `8 * width` bits, in big-endian order. -/
def bitsCodec (width : Nat) : FixedCodec (BitVec (8 * width)) :=
  let store := fun (bits : BitVec (8 * width)) => copyOver (BigEndian.encode width bits.toNat)
  Codec.fixed
    { size? := some width
      append := appendStored width store
      decode := fun bytes => do
        expectLength width bytes
        return BitVec.ofNat (8 * width) (BigEndian.decode bytes) }
    width store

/-- 32-bit numbers stand for their bits. -/
def Binary32.iso : Iso Binary32 (BitVec (8 * 4)) :=
  ⟨Binary32.bits, Binary32.mk, fun _ => rfl, fun _ => rfl⟩

/-- 64-bit numbers stand for their bits. -/
def Binary64.iso : Iso Binary64 (BitVec (8 * 8)) :=
  ⟨Binary64.bits, Binary64.mk, fun _ => rfl, fun _ => rfl⟩

/-- The codec of 32-bit floating-point numbers. -/
def Binary32.codec : FixedCodec Binary32 := (bitsCodec 4).imap Binary32.iso

/-- The codec of 64-bit floating-point numbers. -/
def Binary64.codec : FixedCodec Binary64 := (bitsCodec 8).imap Binary64.iso

end WireForm
