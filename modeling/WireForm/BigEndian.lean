import WireForm.Error

/-!
# Numbers in base 256, most significant digit first

Fixed widths hold a number modulo `256 ^ width`; the minimal forms of natural numbers and of
integers have no digit that could be left out. Integers are in two's complement, so the sign is
the top bit of the first byte.

## Main definitions

* `BigEndian.encode`, `BigEndian.decode` — fixed width, and the value of any digits
* `BigEndian.encodeNat` — as few bytes as hold the number, at least one
* `BigEndian.encodeInt`, `BigEndian.decodeInt` — the same for two's complement
-/

namespace WireForm.BigEndian

/-- Put the last `width` digits of `n` in front of `tail`. -/
def encodeOnto : Nat → Nat → Bytes → Bytes
  | 0, _, tail => tail
  | width + 1, n, tail => encodeOnto width (n / 256) (UInt8.ofNat n :: tail)

/-- The last `width` digits of `n`. -/
def encode (width n : Nat) : Bytes := encodeOnto width n []

/-- The number that these digits stand for. -/
def decode (bytes : Bytes) : Nat := bytes.foldl (fun n byte => n * 256 + byte.toNat) 0

/-- The number of digits of `n`, at least one. -/
def digits (n : Nat) : Nat := n.log2 / 8 + 1

/-- The digits of `n`, with no leading zero unless `n` is zero. -/
def encodeNat (n : Nat) : Bytes := encode (digits n) n

/-- The number of bytes that two's complement needs for `n`: one bit more than the number or, when
it is negative, its complement has. -/
def signedDigits (n : Int) : Nat :=
  match n with
  | .ofNat m => digits (2 * m)
  | .negSucc m => digits (2 * m)

/-- The shortest two's complement form of `n`. -/
def encodeInt (n : Int) : Bytes :=
  encode (signedDigits n) (n % Nat.pow 256 (signedDigits n)).toNat

/-- The number that these bytes stand for in two's complement. -/
def decodeInt (bytes : Bytes) : Int := Int.bmod (decode bytes) (Nat.pow 256 bytes.length)

example : encode 2 0x1234 = [0x12, 0x34] ∧ encode 2 0x123456 = [0x34, 0x56] := by decide
example : encodeNat 0 = [0] ∧ encodeNat 255 = [0xff] ∧ encodeNat 256 = [1, 0] := by decide +kernel
example : encodeInt 0 = [0] ∧ encodeInt 127 = [0x7f] ∧ encodeInt 128 = [0, 0x80] ∧
    encodeInt (-1) = [0xff] ∧ encodeInt (-128) = [0x80] ∧ encodeInt (-129) = [0xff, 0x7f] := by
  decide +kernel
example : decodeInt [] = 0 ∧ decodeInt [0xff] = -1 ∧ decodeInt [0, 0x80] = 128 ∧
    decodeInt [0x80, 0] = -32768 := by decide +kernel

end WireForm.BigEndian
