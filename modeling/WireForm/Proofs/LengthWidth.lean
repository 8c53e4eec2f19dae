import WireForm.LengthWidth
import WireForm.Proofs.Scalar

/-!
# What a recorded length looks like

A length that fits its width is recorded as its digits in base 256, and nothing else is recovered as
that length. The greatest length is not special: for the widest width it is the greatest length
there is on this machine, so recovering never refuses what recording could have made.

## Main definitions

* `LengthWidth.lengthBytes` — the bytes of a recorded length
* `LengthWidth.frame` — an encoding behind its length

## Main results

* `LengthWidth.record_of_le`, `record_of_lt` — recording, as far as it goes
* `LengthWidth.recover_eq_ok_iff` — recovering inverts `lengthBytes`
-/

namespace WireForm

namespace LengthWidth

variable {w : LengthWidth} {len : Nat} {bytes : Bytes}

/-- A length in the bytes it is recorded in, if it fits. -/
def lengthBytes (w : LengthWidth) (len : Nat) : Outcome Bytes :=
  if len ≤ w.max then .ok (BigEndian.encode w.bytes len) else refuse (.lengthTooLarge len w.max)

/-- An encoding with its length in front of it, if that fits. -/
def frame (w : LengthWidth) (bytes : Bytes) : Outcome Bytes := do
  let length ← w.lengthBytes bytes.length
  return length ++ bytes

theorem le_max_iff : len ≤ w.max ↔ len < 256 ^ w.bytes := by
  have hpos : 0 < 256 ^ w.bytes := Nat.pow_pos (by decide)
  rw [max, Nat.pow_eq]
  omega

theorem bytes_pos (w : LengthWidth) : 0 < w.bytes := by cases w <;> decide

theorem pow_bytes_le (w : LengthWidth) : 256 ^ w.bytes ≤ wordLimit := by cases w <;> decide

theorem lengthBytes_of_le (h : len ≤ w.max) :
    w.lengthBytes len = .ok (BigEndian.encode w.bytes len) := if_pos h

theorem lengthBytes_of_lt (h : w.max < len) :
    w.lengthBytes len = refuse (.lengthTooLarge len w.max) := if_neg (Nat.not_le.mpr h)

theorem lengthBytes_eq_ok :
    w.lengthBytes len = .ok bytes ↔ len ≤ w.max ∧ bytes = BigEndian.encode w.bytes len := by
  rw [lengthBytes]
  split <;> simp_all [refuse, eq_comm]

theorem frame_eq_ok {framed : Bytes} :
    w.frame bytes = .ok framed ↔
      bytes.length ≤ w.max ∧ framed = BigEndian.encode w.bytes bytes.length ++ bytes := by
  rw [frame, Outcome.bind_eq_ok]
  constructor
  · rintro ⟨length, hlength, h⟩
    obtain ⟨hle, rfl⟩ := lengthBytes_eq_ok.mp hlength
    exact ⟨hle, (Except.ok.inj h).symm⟩
  · rintro ⟨hle, rfl⟩
    exact ⟨_, lengthBytes_of_le hle, rfl⟩

/-! ### Integers as lengths -/

/-- The integers of a width are those from zero up to the greatest length. -/
theorem value_bounds (n : w.kind.Value) : 0 ≤ n.val ∧ n.val < (256 ^ w.bytes : Nat) := by
  obtain ⟨hlow, hhigh⟩ := n.property
  cases w <;> exact ⟨hlow, hhigh⟩

theorem toBytes_value (n : w.kind.Value) :
    w.kind.toBytes n = BigEndian.encode w.bytes n.val.toNat := by
  have hword : w.kind.toWord n = n.val.toNat := by
    obtain ⟨hlow, hhigh⟩ := value_bounds n
    rw [IntKind.toWord, IntKind.count_eq, show w.kind.width.bytes = w.bytes from rfl,
      Int.emod_eq_of_lt hlow hhigh]
  rw [IntKind.toBytes, hword]
  rfl

theorem ofLength?_of_le (h : len ≤ w.max) :
    ∃ n : w.kind.Value, w.ofLength? len = some n ∧ n.val = len := by
  have hlt := le_max_iff.mp h
  have hrange : w.kind.min ≤ (len : Int) ∧ (len : Int) < w.kind.limit := by
    cases w <;> exact ⟨Int.natCast_nonneg len, Int.ofNat_lt.mpr hlt⟩
  exact ⟨⟨len, hrange⟩, dif_pos hrange, rfl⟩

theorem ofLength?_of_lt (h : w.max < len) : w.ofLength? len = none := by
  refine dif_neg fun hrange => ?_
  have hlt : len < 256 ^ w.bytes := by
    cases w <;> exact Int.ofNat_lt.mp hrange.2
  exact Nat.not_le.mpr h (le_max_iff.mpr hlt)

/-! ### Recording and recovering -/

theorem record_of_le (h : len ≤ w.max) :
    ∃ n, w.record len = .ok n ∧ w.kind.toBytes n = BigEndian.encode w.bytes len := by
  obtain ⟨n, hn, hval⟩ := ofLength?_of_le h
  refine ⟨n, by rw [record, hn], ?_⟩
  rw [toBytes_value, hval, Int.toNat_natCast]

theorem record_of_lt (h : w.max < len) : w.record len = refuse (.lengthTooLarge len w.max) := by
  rw [record, ofLength?_of_lt h]

/-- No recorded integer is too large to be a length on this machine. -/
theorem toLength?_eq (n : w.kind.Value) : w.toLength? n = some n.val.toNat := by
  obtain ⟨hlow, hhigh⟩ := value_bounds n
  have hlimit := w.pow_bytes_le
  exact if_pos (by omega)

theorem recover_eq_ok :
    w.recover bytes = .ok len ↔ len ≤ w.max ∧ bytes = BigEndian.encode w.bytes len := by
  rw [recover, Outcome.bind_eq_ok]
  constructor
  · rintro ⟨n, hn, h⟩
    rw [toLength?_eq] at h
    obtain ⟨hlow, hhigh⟩ := value_bounds n
    obtain rfl : n.val.toNat = len := Except.ok.inj h
    refine ⟨le_max_iff.mpr (by omega), ?_⟩
    rw [(w.kind.codec_exact bytes n).mp hn, IntKind.image_codec, toBytes_value]
  · rintro ⟨hle, rfl⟩
    obtain ⟨n, hn, hval⟩ := ofLength?_of_le hle
    refine ⟨n, (w.kind.codec_exact _ _).mpr ?_, ?_⟩
    · rw [IntKind.image_codec, toBytes_value, hval, Int.toNat_natCast]
    · rw [toLength?_eq, hval, Int.toNat_natCast]

/-- **Recovering inverts recording.** -/
theorem recover_eq_ok_iff : w.recover bytes = .ok len ↔ w.lengthBytes len = .ok bytes := by
  rw [recover_eq_ok, lengthBytes_eq_ok]

theorem length_lengthBytes (h : w.lengthBytes len = .ok bytes) : bytes.length = w.bytes := by
  rw [(lengthBytes_eq_ok.mp h).2, BigEndian.length_encode]

end LengthWidth

end WireForm
