import WireForm.BigEndian
import WireForm.Codec

/-!
# Integers of a fixed width

There are ten kinds: one, two, four, eight or sixteen bytes, with a sign or without. A value of a
kind is an integer in the kind's range. It is encoded in big-endian order, negative numbers in
two's complement.

A single unsigned byte is also a type of its own, `UInt8`: runs of bytes are copied as a whole, and
storing a byte looks at the first place of the slice only.

## Main definitions

* `ByteWidth`, `IntKind`, `IntKind.Value` — the kinds and their values
* `IntKind.name`, `IntKind.ofName?` — what kinds are called
* `IntKind.toWord`, `IntKind.ofWord` — two's complement
* `IntKind.codec`, `byteCodec` — the codecs
* `copyOver`, `storeFirst` — overwriting a slice of exactly the right length, or its first place
-/

namespace WireForm

/-- The widths of integers, in bytes. -/
inductive ByteWidth where
  | one | two | four | eight | sixteen
  deriving DecidableEq, Repr

/-- The number of bytes. -/
def ByteWidth.bytes : ByteWidth → Nat
  | .one => 1
  | .two => 2
  | .four => 4
  | .eight => 8
  | .sixteen => 16

/-- A kind of integers: how wide they are, and whether they have a sign. -/
structure IntKind where
  /-- How many bytes a value takes. -/
  width : ByteWidth
  /-- Whether values can be negative. -/
  signed : Bool
  deriving DecidableEq, Repr

/-- The unsigned integers of a width. -/
def IntKind.unsigned (width : ByteWidth) : IntKind := ⟨width, false⟩

/-- The signed integers of a width. -/
def IntKind.twosComplement (width : ByteWidth) : IntKind := ⟨width, true⟩

namespace IntKind

/-- The name of a kind: `u` or `i`, and the number of bits. -/
def name (k : IntKind) : String := (if k.signed then "i" else "u") ++ toString (8 * k.width.bytes)

/-- All kinds. -/
def all : List IntKind :=
  [false, true].flatMap fun signed =>
    [.one, .two, .four, .eight, .sixteen].map fun width => ⟨width, signed⟩

/-- The kind of this name. -/
def ofName? (name : String) : Option IntKind := all.find? (·.name == name)

/-- The number of different values of a kind. -/
def count (k : IntKind) : Nat := Nat.pow 256 k.width.bytes

/-- The least value. -/
def min (k : IntKind) : Int := if k.signed then -(k.count / 2 : Nat) else 0

/-- The first integer above the greatest value. -/
def limit (k : IntKind) : Int := if k.signed then (k.count / 2 : Nat) else k.count

/-- The integers in the range of a kind. -/
abbrev Value (k : IntKind) : Type := { n : Int // k.min ≤ n ∧ n < k.limit }

theorem count_pos (k : IntKind) : 0 < k.count := Nat.pow_pos (by decide)

theorem two_dvd_count (k : IntKind) : 2 ∣ k.count := by
  obtain ⟨w, s⟩ := k
  cases w <;> simp only [count, ByteWidth.bytes] <;> decide

/-- The value of a kind whose two's complement word is `u`, taken modulo the number of words. -/
def ofWord (k : IntKind) (u : Nat) : k.Value :=
  ⟨if k.signed then Int.bmod u k.count else (u % k.count : Nat), by
    have hc := k.count_pos
    have h2 := k.two_dvd_count
    unfold min limit
    cases k.signed with
    | false => simp only [Bool.false_eq_true, if_false]; have := Nat.mod_lt u hc; omega
    | true =>
      simp only [if_true]
      have h1 := Int.le_bmod (x := (u : Int)) hc
      have h3 := Int.bmod_lt (x := (u : Int)) hc
      omega⟩

/-- The two's complement word of a value. -/
def toWord (k : IntKind) (n : k.Value) : Nat := (n.val % (k.count : Int)).toNat

/-- The value of a kind equal to `n`, if `n` is in its range. -/
def ofInt? (k : IntKind) (n : Int) : Option k.Value :=
  if h : k.min ≤ n ∧ n < k.limit then some ⟨n, h⟩ else none

end IntKind

/-! ### Overwriting a slice -/

/-- Overwrite `dst` with `src`, which has to be as long. -/
def copyOver (src dst : Bytes) : Outcome Bytes :=
  if src.length = dst.length then .ok src else crash

/-- Overwrite the first place of `dst`, which has to have one. -/
def storeFirst (byte : UInt8) (dst : Bytes) : Outcome Bytes :=
  match dst with
  | [] => crash
  | _ :: rest => .ok (byte :: rest)

/-! ### The codecs -/

/-- The codec of single bytes. Runs of bytes are copied as they are. -/
def byteCodec : FixedCodec UInt8 where
  size? := some 1
  append byte := fun out => (.ok (), out ++ [byte])
  decode bytes := do
    expectLength 1 bytes
    match bytes with
    | [] => crash
    | byte :: _ => return byte
  size := 1
  store := storeFirst
  appendAll bytes := fun out => (.ok (), out ++ bytes)
  decodeAll bytes := .ok bytes

namespace IntKind

/-- The bytes of a value. -/
def toBytes (k : IntKind) (n : k.Value) : Bytes := BigEndian.encode k.width.bytes (k.toWord n)

/-- Overwrite a slice with the bytes of a value. Of a single unsigned byte the slice may be longer
than it is. -/
def store (k : IntKind) (n : k.Value) (dst : Bytes) : Outcome Bytes :=
  if k = unsigned .one then storeFirst (UInt8.ofNat (k.toWord n)) dst
  else copyOver (k.toBytes n) dst

/-- The codec of the integers of a kind. -/
def codec (k : IntKind) : FixedCodec k.Value :=
  Codec.fixed
    { size? := some k.width.bytes
      append := appendStored k.width.bytes k.store
      decode := fun bytes => do
        expectLength k.width.bytes bytes
        return k.ofWord (BigEndian.decode bytes) }
    k.width.bytes k.store

end IntKind

end WireForm
