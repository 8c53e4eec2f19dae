import Mathlib.Data.List.Induction
import Mathlib.Tactic.Ring
import WireForm.BigEndian

/-!
# Digits and the numbers they stand for

Writing a number in base 256 and reading it again are inverse to each other, in both directions at
a fixed width and in one direction for the minimal forms: those drop leading zeros, which reading
accepts.

Widths are never assumed to be large enough. `decode_encode` says what is left of a number that is
too big, and the bound comes in where the number itself is wanted back.

## Main results

* `BigEndian.decode_encode`, `encode_decode` — the inverse pair at a fixed width
* `BigEndian.decode_encodeNat`, `decodeInt_encodeInt` — the minimal forms read back
-/

namespace WireForm

namespace BigEndian

/-! ### Fixed width -/

theorem encodeOnto_eq (width n : Nat) (tail : Bytes) :
    encodeOnto width n tail = encode width n ++ tail := by
  induction width generalizing n tail with
  | zero => rfl
  | succ width ih =>
    rw [encode, encodeOnto, encodeOnto, ih, ih _ [_], List.append_assoc]
    rfl

@[simp] theorem encode_zero (n : Nat) : encode 0 n = [] := rfl

/-- The last digit stands at the end, behind the digits of the rest of the number. -/
theorem encode_succ (width n : Nat) :
    encode (width + 1) n = encode width (n / 256) ++ [UInt8.ofNat n] := by
  rw [encode, encodeOnto, encodeOnto_eq]

@[simp] theorem length_encode (width n : Nat) : (encode width n).length = width := by
  induction width generalizing n with
  | zero => rfl
  | succ width ih => rw [encode_succ, List.length_append, ih, List.length_singleton]

@[simp] theorem decode_nil : decode [] = 0 := rfl

theorem decode_concat (bytes : Bytes) (byte : UInt8) :
    decode (bytes ++ [byte]) = decode bytes * 256 + byte.toNat := by
  simp [decode, List.foldl_append]

theorem decode_lt (bytes : Bytes) : decode bytes < 256 ^ bytes.length := by
  induction bytes using List.reverseRecOn with
  | nil => simp
  | append_singleton bytes byte ih =>
    have hbyte : byte.toNat < 256 := byte.toNat_lt
    rw [decode_concat, List.length_append, List.length_singleton]
    calc decode bytes * 256 + byte.toNat
        < (decode bytes + 1) * 256 := by omega
      _ ≤ 256 ^ bytes.length * 256 := Nat.mul_le_mul_right _ ih
      _ = 256 ^ (bytes.length + 1) := by ring

/-- Reading `width` digits of a number gives the number modulo `256 ^ width`. -/
theorem decode_encode (width n : Nat) : decode (encode width n) = n % 256 ^ width := by
  induction width generalizing n with
  | zero => simp [Nat.mod_one]
  | succ width ih =>
    have hdigit : (UInt8.ofNat n).toNat = n % 256 := by simp
    rw [encode_succ, decode_concat, ih, hdigit, show 256 ^ (width + 1) = 256 * 256 ^ width by ring,
      Nat.mod_mul]
    ring

theorem decode_encode_of_lt {width n : Nat} (h : n < 256 ^ width) :
    decode (encode width n) = n := by
  rw [decode_encode, Nat.mod_eq_of_lt h]

/-- Digits are determined by how many there are and by their number. -/
theorem encode_decode (bytes : Bytes) : encode bytes.length (decode bytes) = bytes := by
  induction bytes using List.reverseRecOn with
  | nil => rfl
  | append_singleton bytes byte ih =>
    have hbyte : byte.toNat < 256 := byte.toNat_lt
    have hdiv : (decode bytes * 256 + byte.toNat) / 256 = decode bytes := by omega
    have hlast : UInt8.ofNat (decode bytes * 256 + byte.toNat) = byte := by
      apply UInt8.toNat_inj.mp
      rw [UInt8.toNat_ofNat']
      omega
    rw [List.length_append, List.length_singleton, encode_succ, decode_concat, hdiv, ih, hlast]

/-! ### Minimal forms -/

/-- A number fits the digits it is given. -/
theorem lt_pow_digits (n : Nat) : n < 256 ^ digits n := by
  have hlog : n < 2 ^ (n.log2 + 1) := Nat.lt_log2_self
  calc n < 2 ^ (n.log2 + 1) := hlog
    _ ≤ 2 ^ (8 * (n.log2 / 8 + 1)) := Nat.pow_le_pow_right (by omega) (by omega)
    _ = 256 ^ digits n := by rw [pow_mul]; rfl

theorem decode_encodeNat (n : Nat) : decode (encodeNat n) = n :=
  decode_encode_of_lt (lt_pow_digits n)

/-- An integer lies in the signed range of the digits it is given: half of the words stand for
numbers of either sign. -/
theorem signed_range (n : Int) :
    -((256 ^ signedDigits n : Nat) : Int) ≤ 2 * n ∧ 2 * n < (256 ^ signedDigits n : Nat) := by
  cases n with
  | ofNat m =>
    have h : 2 * m < 256 ^ signedDigits (.ofNat m) := lt_pow_digits (2 * m)
    rw [Int.ofNat_eq_natCast] at *
    omega
  | negSucc m =>
    have h : 2 * m < 256 ^ signedDigits (.negSucc m) := lt_pow_digits (2 * m)
    have heven : 256 ^ signedDigits (.negSucc m) % 2 = 0 := by
      rw [show signedDigits (.negSucc m) = (2 * m).log2 / 8 + 1 from rfl, pow_succ]
      omega
    rw [Int.negSucc_eq] at *
    omega

theorem decodeInt_encodeInt (n : Int) : decodeInt (encodeInt n) = n := by
  obtain ⟨hlow, hhigh⟩ := signed_range n
  have hpos : (0 : Int) < (256 ^ signedDigits n : Nat) := by
    exact_mod_cast Nat.pow_pos (by decide)
  have hword :
      ((n % (256 ^ signedDigits n : Nat)).toNat : Int) = n % (256 ^ signedDigits n : Nat) :=
    Int.toNat_of_nonneg (Int.emod_nonneg _ hpos.ne')
  have hlt : (n % (256 ^ signedDigits n : Nat)).toNat < 256 ^ signedDigits n := by
    rw [← Int.ofNat_lt, hword]
    exact Int.emod_lt_of_pos _ hpos
  rw [decodeInt, encodeInt, Nat.pow_eq, length_encode, decode_encode_of_lt hlt, hword, Nat.pow_eq,
    Int.emod_bmod]
  exact Int.bmod_eq_of_le_mul_two (by omega) (by omega)

end BigEndian

end WireForm
