import WireForm.Proofs.BigEndian
import WireForm.Proofs.FixedCodec
import WireForm.Scalar.Basic
import WireForm.Scalar.Enumeration

/-!
# Single values: their codecs are lawful and exact

For bytes, integers, truth values, characters, floating-point numbers and enumerations the two
directions of a codec determine each other: a byte string decodes to a value exactly when it is the
value's image. So there is one statement for each of them, an equivalence, from which both "what
was encoded is decoded" and "what was decoded is encoded in that way" can be read off.

A floating-point number is its bits, so a NaN comes back with its payload.

## Main definitions

* `FixedCodec.Exact` — a byte string decodes to a value iff it is the value's image

## Main results

* `byteCodec_exact`, `IntKind.codec_exact`, `boolCodec_exact`, `charCodec_exact`,
  `Binary32.codec_exact`, `Binary64.codec_exact`, `Enumeration.codec_exact`
-/

namespace WireForm

variable {α β : Type}

/-- The value and the bytes that encode it determine each other. -/
def FixedCodec.Exact (c : FixedCodec α) : Prop :=
  ∀ bytes a, c.decode bytes = .ok a ↔ bytes = c.image a

theorem FixedCodec.Exact.imap {c : FixedCodec β} (h : c.Exact) (iso : Iso α β) :
    (c.imap iso).Exact := by
  intro bytes a
  show (c.decode bytes).map iso.back = .ok a ↔ bytes = c.image (iso.forth a)
  rw [Outcome.map_eq_ok, ← h]
  constructor
  · rintro ⟨b, hb, rfl⟩
    rw [hb, iso.forth_back]
  · intro ha
    exact ⟨iso.forth a, ha, iso.back_forth a⟩

theorem copyOver_eq {src dst : Bytes} (h : dst.length = src.length) :
    copyOver src dst = .ok src := by
  rw [copyOver, if_pos h.symm]

/-! ### Bytes -/

theorem storeFirst_eq (byte : UInt8) {dst : Bytes} (h : dst.length = 1) :
    storeFirst byte dst = .ok [byte] := by
  obtain ⟨old, rfl⟩ := List.length_eq_one_iff.mp h
  rfl

theorem byteCodec_exact : byteCodec.Exact := by
  intro bytes byte
  show (expectLength 1 bytes >>= _) = .ok byte ↔ bytes = [byte]
  constructor
  · intro h
    obtain ⟨u, hlen, h⟩ := Outcome.bind_eq_ok.mp h
    obtain ⟨first, rfl⟩ := List.length_eq_one_iff.mp (expectLength_eq_ok.mp hlen)
    rw [Except.ok.inj h]
  · rintro rfl
    rfl

/-- Copying a run of bytes as a whole is decoding it byte by byte. -/
theorem decodeChunks_byteCodec (bytes : Bytes) :
    decodeChunks 1 byteCodec.decode bytes = .ok bytes := by
  have hbytes : (bytes.map fun byte => [byte]).flatten = bytes := by
    rw [← List.flatMap_def, List.flatMap_singleton']
  have hrun :
      decodeChunks 1 byteCodec.decode (bytes.map fun byte => [byte]).flatten = .ok bytes := by
    rw [decodeChunks_flatten Nat.one_pos _ (by simp), Outcome.mapM_eq_ok, List.forall₂_map_left_iff,
      List.forall₂_same]
    intro byte _
    exact (byteCodec_exact _ _).mpr rfl
  rwa [hbytes] at hrun

theorem byteCodec_lawful : byteCodec.Lawful where
  size?_eq := rfl
  length_image _ := rfl
  append_eq _ _ := rfl
  store_eq byte _ h := storeFirst_eq byte h
  appendAll_eq bytes out := by
    show (_, out ++ bytes) = (_, out ++ bytes.flatMap fun byte => [byte])
    rw [List.flatMap_singleton']
  decodeAll_eq bytes := (decodeChunks_byteCodec bytes).symm

/-! ### Integers -/

namespace IntKind

variable {k : IntKind}

theorem count_eq (k : IntKind) : k.count = 256 ^ k.width.bytes := Nat.pow_eq

theorem toWord_lt (n : k.Value) : k.toWord n < k.count := by
  have hpos := k.count_pos
  have hmod := Int.emod_lt_of_pos n.val (b := k.count) (by omega)
  have hnonneg := Int.emod_nonneg n.val (b := k.count) (by omega)
  rw [toWord]
  omega

/-- The word of a value, taken modulo the number of words, is the value itself. -/
theorem coe_toWord (n : k.Value) : (k.toWord n : Int) = n.val % (k.count : Int) := by
  have hpos := k.count_pos
  exact Int.toNat_of_nonneg (Int.emod_nonneg _ (by omega))

theorem ofWord_toWord (n : k.Value) : k.ofWord (k.toWord n) = n := by
  have hlow : (if k.signed then -((k.count / 2 : Nat) : Int) else 0) ≤ n.val := n.property.1
  have hhigh : n.val < if k.signed then ((k.count / 2 : Nat) : Int) else k.count := n.property.2
  have hpos := k.count_pos
  have heven := k.two_dvd_count
  apply Subtype.ext
  show (if k.signed then Int.bmod (k.toWord n) k.count
    else ((k.toWord n % k.count : Nat) : Int)) = _
  split at hlow
  · rename_i hsigned
    rw [if_pos hsigned] at hhigh ⊢
    rw [coe_toWord, Int.emod_bmod]
    exact Int.bmod_eq_of_le_mul_two (by omega) (by omega)
  · rename_i hsigned
    rw [if_neg hsigned] at hhigh ⊢
    rw [Nat.mod_eq_of_lt (toWord_lt n), coe_toWord]
    exact Int.emod_eq_of_lt hlow hhigh

theorem toWord_ofWord {u : Nat} (hu : u < k.count) : k.toWord (k.ofWord u) = u := by
  have hval : (k.ofWord u).val % (k.count : Int) = u := by
    show (if k.signed then Int.bmod u k.count else ((u % k.count : Nat) : Int)) % _ = _
    split
    · rw [Int.bmod_emod]
      exact Int.emod_eq_of_lt (by omega) (by omega)
    · rw [Nat.mod_eq_of_lt hu]
      exact Int.emod_eq_of_lt (by omega) (by omega)
  rw [toWord, hval, Int.toNat_natCast]

theorem length_toBytes (n : k.Value) : (k.toBytes n).length = k.width.bytes :=
  BigEndian.length_encode _ _

theorem store_eq (n : k.Value) (dst : Bytes) (h : dst.length = k.width.bytes) :
    k.store n dst = .ok (k.toBytes n) := by
  rw [store]
  split
  · rename_i hk
    subst hk
    rw [storeFirst_eq _ h]
    rfl
  · exact copyOver_eq (by rw [length_toBytes, h])

theorem codec_lawful (k : IntKind) : k.codec.Lawful :=
  Codec.lawful_fixed k.toBytes rfl length_toBytes (appendStored_eq store_eq) store_eq

@[simp] theorem image_codec (n : k.Value) : k.codec.image n = k.toBytes n := by
  show (appendStored k.width.bytes k.store n []).2 = _
  rw [appendStored_eq store_eq]
  rfl

theorem codec_exact (k : IntKind) : k.codec.Exact := by
  intro bytes n
  show (do expectLength k.width.bytes bytes; return k.ofWord (BigEndian.decode bytes)) = .ok n ↔ _
  rw [image_codec, toBytes, Outcome.bind_eq_ok]
  constructor
  · rintro ⟨u, hlen, h⟩
    have hlen := expectLength_eq_ok.mp hlen
    have hlt : BigEndian.decode bytes < k.count := by
      rw [count_eq, ← hlen]
      exact BigEndian.decode_lt bytes
    rw [← Except.ok.inj h, toWord_ofWord hlt, ← hlen, BigEndian.encode_decode]
  · rintro rfl
    refine ⟨(), expectLength_of_eq (BigEndian.length_encode _ _), ?_⟩
    rw [BigEndian.decode_encode_of_lt (by rw [← count_eq]; exact toWord_lt n), ofWord_toWord]
    rfl

end IntKind

/-! ### Truth values -/

theorem boolCodec_lawful : boolCodec.Lawful :=
  Codec.lawful_fixed (fun b => [b.toUInt8]) rfl (fun _ => rfl) (fun _ _ => rfl)
    fun b _ h => storeFirst_eq b.toUInt8 h

theorem boolCodec_exact : boolCodec.Exact := by
  intro bytes b
  show (byteCodec.decode bytes >>= _) = .ok b ↔ bytes = [b.toUInt8]
  rw [Outcome.bind_eq_ok]
  constructor
  · rintro ⟨byte, hbyte, h⟩
    rw [(byteCodec_exact bytes byte).mp hbyte]
    show [byte] = _
    split at h
    · rename_i hzero
      rw [hzero, ← Except.ok.inj h]
      rfl
    · split at h
      · rename_i hone
        rw [hone, ← Except.ok.inj h]
        rfl
      · cases h
  · rintro rfl
    refine ⟨b.toUInt8, (byteCodec_exact _ _).mpr rfl, ?_⟩
    cases b <;> rfl

/-! ### Characters -/

theorem storeChar_eq (c : Char) (dst : Bytes) (h : dst.length = charBytes) :
    storeChar c dst = .ok (BigEndian.encode charBytes c.toNat) :=
  copyOver_eq (by rw [BigEndian.length_encode, h])

theorem charCodec_lawful : charCodec.Lawful :=
  Codec.lawful_fixed (fun c => BigEndian.encode charBytes c.toNat) rfl
    (fun _ => BigEndian.length_encode _ _) (appendStored_eq storeChar_eq) storeChar_eq

theorem image_charCodec (c : Char) : charCodec.image c = BigEndian.encode charBytes c.toNat := by
  show (appendStored charBytes storeChar c []).2 = _
  rw [appendStored_eq storeChar_eq]
  rfl

theorem charOfNat?_eq_some {n : Nat} {c : Char} : charOfNat? n = some c ↔ n = c.toNat := by
  rw [charOfNat?]
  constructor
  · intro h
    split at h
    · rename_i hvalid
      rw [← Option.some.inj h, show Char.ofNat n = Char.ofNatAux n hvalid from dif_pos hvalid]
      rfl
    · cases h
  · rintro rfl
    have hvalid : c.toNat.isValidChar := c.valid
    rw [if_pos hvalid, Char.ofNat_toNat]

theorem decode_charCodec (bytes : Bytes) :
    charCodec.decode bytes = (do
      expectLength charBytes bytes
      (charOfNat? (BigEndian.decode bytes)).elim
        (refuse (.invalidDiscriminant "char" (BigEndian.decode bytes))) Except.ok) := by
  rw [charCodec]
  dsimp only [Codec.fixed]
  cases charOfNat? (BigEndian.decode bytes) <;> rfl

theorem charCodec_exact : charCodec.Exact := by
  intro bytes c
  rw [image_charCodec, decode_charCodec, Outcome.bind_eq_ok]
  constructor
  · rintro ⟨u, hlen, h⟩
    rw [← charOfNat?_eq_some.mp (Outcome.elim_refuse_eq_ok.mp h), ← expectLength_eq_ok.mp hlen,
      BigEndian.encode_decode]
  · rintro rfl
    have hlt : c.toNat < 256 ^ charBytes := c.val.toNat_lt
    refine ⟨(), expectLength_of_eq (BigEndian.length_encode _ _),
      Outcome.elim_refuse_eq_ok.mpr (charOfNat?_eq_some.mpr ?_)⟩
    rw [BigEndian.decode_encode_of_lt hlt]

/-! ### Floating-point numbers -/

section Bits

variable {width : Nat}

theorem storeBits_eq (bits : BitVec (8 * width)) (dst : Bytes) (h : dst.length = width) :
    copyOver (BigEndian.encode width bits.toNat) dst = .ok (BigEndian.encode width bits.toNat) :=
  copyOver_eq (by rw [BigEndian.length_encode, h])

theorem bitsCodec_lawful (width : Nat) : (bitsCodec width).Lawful :=
  Codec.lawful_fixed (fun bits => BigEndian.encode width bits.toNat) rfl
    (fun _ => BigEndian.length_encode _ _) (appendStored_eq storeBits_eq) storeBits_eq

theorem image_bitsCodec (bits : BitVec (8 * width)) :
    (bitsCodec width).image bits = BigEndian.encode width bits.toNat := by
  show (appendStored width (fun bits => copyOver (BigEndian.encode width bits.toNat)) bits []).2 = _
  rw [appendStored_eq storeBits_eq]
  rfl

theorem bitsCodec_exact (width : Nat) : (bitsCodec width).Exact := by
  intro bytes bits
  rw [image_bitsCodec]
  show (do
    expectLength width bytes
    return BitVec.ofNat (8 * width) (BigEndian.decode bytes)) = .ok bits ↔ _
  have hpow : 256 ^ width = 2 ^ (8 * width) := by rw [pow_mul]; rfl
  rw [Outcome.bind_eq_ok]
  constructor
  · rintro ⟨u, hlen, h⟩
    have hlen := expectLength_eq_ok.mp hlen
    have hlt : BigEndian.decode bytes < 2 ^ (8 * width) := by
      rw [← hpow, ← hlen]
      exact BigEndian.decode_lt bytes
    rw [← Except.ok.inj h, BitVec.toNat_ofNat, Nat.mod_eq_of_lt hlt, ← hlen,
      BigEndian.encode_decode]
  · rintro rfl
    refine ⟨(), expectLength_of_eq (BigEndian.length_encode _ _), ?_⟩
    rw [BigEndian.decode_encode_of_lt (by rw [hpow]; exact bits.isLt), BitVec.ofNat_toNat,
      BitVec.setWidth_eq]
    rfl

end Bits

theorem Binary32.codec_lawful : Binary32.codec.Lawful := (bitsCodec_lawful 4).imap _

theorem Binary32.codec_exact : Binary32.codec.Exact := (bitsCodec_exact 4).imap _

theorem Binary64.codec_lawful : Binary64.codec.Lawful := (bitsCodec_lawful 8).imap _

theorem Binary64.codec_exact : Binary64.codec.Exact := (bitsCodec_exact 8).imap _

/-! ### Enumerations -/

namespace Enumeration

variable (e : Enumeration α)

/-- Trying the values in order finds the one with the integer, since no two share theirs. -/
theorem find?_eq_some {n : e.kind.Value} {a : α} : e.find? n = some a ↔ n = e.discriminant a := by
  rw [find?]
  constructor
  · intro h
    have heq := List.find?_some h
    exact (beq_iff_eq.mp heq).symm
  · rintro rfl
    have hsome : (e.variants.find? fun b => e.discriminant b == e.discriminant a).isSome :=
      List.find?_isSome.mpr ⟨a, e.mem_variants a, beq_self_eq_true _⟩
    obtain ⟨b, hb⟩ := Option.isSome_iff_exists.mp hsome
    have heq := List.find?_some hb
    rw [hb, e.discriminant_injective b a (beq_iff_eq.mp heq)]

theorem codec_lawful : e.codec.Lawful := (e.kind.codec_lawful).via _ _

theorem decode_codec (bytes : Bytes) :
    e.codec.decode bytes = (do
      let n ← e.kind.codec.decode bytes
      (e.find? n).elim (refuse (.invalidDiscriminant e.name n.val)) Except.ok) := by
  refine bind_congr fun n => ?_
  dsimp only
  cases e.find? n <;> rfl

theorem codec_exact : e.codec.Exact := by
  intro bytes a
  rw [decode_codec, Outcome.bind_eq_ok, show e.codec.image a = e.kind.codec.image _ from rfl]
  constructor
  · rintro ⟨n, hn, h⟩
    rw [← e.find?_eq_some.mp (Outcome.elim_refuse_eq_ok.mp h)]
    exact (e.kind.codec_exact _ _).mp hn
  · rintro rfl
    exact ⟨e.discriminant a, (e.kind.codec_exact _ _).mpr rfl,
      Outcome.elim_refuse_eq_ok.mpr (e.find?_eq_some.mpr rfl)⟩

end Enumeration

end WireForm
