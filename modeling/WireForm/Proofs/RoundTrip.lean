import WireForm.Proofs.SequenceReading
import WireForm.Proofs.ShapeLaws
import WireForm.Register.Shapes

/-!
# What was encoded is decoded

A codec recovers a value when decoding its encoding gives the value back. For composites this comes
from their parts, and the only thing to see is that every part is found again: by its size, by the
length in front of it, by the header, or because nothing comes behind it.

Two things cannot be told from an encoding. Values of no bytes leave no trace, so a run of them
comes back only if it is empty; and a value that stands for a base value is recovered as far as the
two conversions undo each other on it. `Shape.Recoverable` says that a value is free of both.

Encodings are taken to fit the machine, that is to have fewer than `wordLimit` bytes. A longer one
could not be read to its end, and no machine has it.

## Main definitions

* `RoundTrips`, `Codec.Recovers` — decoding undoes encoding, on a value
* `FixedShape.Recoverable`, `Shape.Recoverable` — nothing about the value is lost

## Main results

* `FixedShape.recovers`, `Shape.recovers` — recoverable values are recovered
* `encoding_roundTrips` — the same of all shapes, tuples and declared records
-/

namespace WireForm

variable {α β τ : Type}

/-- Decoding an encoding of the value gives the value, if the encoding fits the machine. -/
def RoundTrips (encode : α → Outcome Bytes) (decode : Bytes → Outcome α) (a : α) : Prop :=
  ∀ bytes, encode a = .ok bytes → bytes.length < wordLimit → decode bytes = .ok a

/-- The codec gives the value back. -/
def Codec.Recovers (c : Codec α) (a : α) : Prop := RoundTrips c.encode c.decode a

/-! ### Single values -/

theorem FixedCodec.Exact.recovers {c : FixedCodec α} (h : c.Exact) (hc : c.Lawful) (a : α) :
    c.Recovers a := by
  intro bytes henc _
  rw [hc.encode_eq] at henc
  exact (h bytes a).mpr (Except.ok.inj henc).symm

theorem Codec.Recovers.imap {c : Codec β} {iso : Iso α β} {a : α} (h : c.Recovers (iso.forth a)) :
    (c.imap iso).Recovers a := by
  intro bytes henc hlen
  show (c.decode bytes).map iso.back = .ok a
  rw [h bytes henc hlen]
  exact congrArg Except.ok (iso.back_forth a)

theorem Codec.Recovers.via {c : Codec β} {toBase : α → β} {ofBase : β → Outcome α} {a : α}
    (h : c.Recovers (toBase a)) (hback : ofBase (toBase a) = .ok a) :
    (c.via toBase ofBase).Recovers a := by
  intro bytes henc hlen
  show (c.decode bytes >>= ofBase) = .ok a
  rw [h bytes henc hlen]
  exact hback

theorem textCodec_recovers (s : String) : textCodec.Recovers s := by
  intro bytes henc _
  obtain rfl : Utf8.encode s = bytes := Except.ok.inj henc
  show Utf8.decode (Utf8.encode s) = .ok s
  rw [Utf8.decode, Utf8.encode, Array.toArray_toList, String.fromUTF8?, dif_pos s.isValidUTF8]
  rfl

theorem naturalCodec_recovers (n : Nat) : naturalCodec.Recovers n := by
  intro bytes henc _
  obtain rfl : BigEndian.encodeNat n = bytes := Except.ok.inj henc
  exact congrArg Except.ok (BigEndian.decode_encodeNat n)

theorem integerCodec_recovers (n : Int) : integerCodec.Recovers n := by
  intro bytes henc _
  obtain rfl : BigEndian.encodeInt n = bytes := Except.ok.inj henc
  exact congrArg Except.ok (BigEndian.decodeInt_encodeInt n)

/-! ### Runs of values of a fixed size -/

namespace FixedCodec.Lawful

variable {c : FixedCodec α}

/-- An image is decoded if it fits the machine. -/
theorem decode_image (hc : c.Lawful) {a : α} (h : c.Recovers a) (hlen : c.size < wordLimit) :
    c.decode (c.image a) = .ok a :=
  h (c.image a) (hc.encode_eq a) (by rwa [hc.length_image])

/-- The images of recovered values, one after the other, are chunks that decode to them. -/
theorem decode_images (hc : c.Lawful) {as : List α} (h : ∀ a ∈ as, c.Recovers a)
    (hlen : (as.flatMap c.image).length < wordLimit) :
    List.Forall₂ (fun b a => c.decode b = .ok a) (as.map c.image) as := by
  rw [List.forall₂_map_left_iff, List.forall₂_same]
  intro a ha
  refine hc.decode_image (h a ha) (Nat.lt_of_le_of_lt ?_ hlen)
  rw [hc.length_flatMap]
  exact Nat.le_mul_of_pos_right _ (List.length_pos_of_mem ha)

theorem recovers_vectorCodec (hc : c.Lawful) {n : Nat} {values : Vector α n}
    (h : ∀ a ∈ values.toList, c.Recovers a) :
    (WireForm.vectorCodec c n).Recovers values := by
  intro bytes henc hlen
  rw [(hc.vectorCodec n).encode_eq, hc.image_vectorCodec] at henc
  obtain rfl := Except.ok.inj henc
  exact hc.decodeVector_eq_ok.mpr
    ⟨values.toList.map c.image, rfl, hc.length_of_mem_map _, hc.decode_images h hlen⟩

end FixedCodec.Lawful

/-- A list of values of no bytes is recovered only if it is empty. -/
theorem listCodec_recovers {c : FixedCodec α} (hc : c.Lawful) {as : List α}
    (h : ∀ a ∈ as, c.Recovers a) (hsize : as = [] ∨ c.size ≠ 0) : (listCodec c).Recovers as := by
  intro bytes henc hlen
  rw [encode_listCodec hc] at henc
  obtain rfl := Except.ok.inj henc
  show c.decodeAll (as.flatMap c.image) = .ok as
  rw [hc.decodeAll_eq]
  by_cases hzero : c.size = 0
  · obtain rfl : as = [] := hsize.resolve_right (absurd hzero)
    rw [hzero]
    exact decodeChunks_zero.mpr ⟨rfl, rfl⟩
  · exact (decodeChunks_eq_ok (Nat.pos_of_ne_zero hzero)).mpr
      ⟨as.map c.image, rfl, hc.length_of_mem_map as, hc.decode_images h hlen⟩

/-! ### Records of fields of fixed sizes -/

/-- Every field is recovered. -/
def FixedCodecs.Recover : {τ : Type} → FixedCodecs τ → τ → Prop
  | _, .nil, _ => True
  | _, .cons head tail, (a, as) => head.Recovers a ∧ tail.Recover as

theorem FixedCodecs.readFrom_image {fields : FixedCodecs τ} (hf : fields.Lawful) {as : τ}
    (h : fields.Recover as) (hlen : (fields.image as).length < wordLimit) :
    fields.ReadFrom (fields.image as) as := by
  induction fields with
  | nil => rfl
  | cons head tail ih =>
    obtain ⟨a, as⟩ := as
    rw [image, List.length_append, hf.1.length_image] at hlen
    have ha : head.decode (head.image a) = .ok a := hf.1.decode_image h.1 (by omega)
    exact ⟨_, _, rfl, ⟨hf.1.length_image a, ha⟩, ih hf.2 h.2 (by omega)⟩

theorem Tuple.packed_roundTrips {fields : FixedCodecs τ} (hf : fields.Lawful) {as : τ}
    (h : fields.Recover as) :
    RoundTrips (Tuple.packed fields).encode (Tuple.packed fields).decode as := by
  intro bytes henc hlen
  rw [encode_packed hf] at henc
  obtain rfl : fields.image as = bytes := Except.ok.inj henc
  have htotal : (fields.image as).length = (Tuple.packed fields).totalSize :=
    FixedCodecs.length_image hf as
  rw [PackedForm.decode, if_pos htotal]
  exact (reads_readFixed fields).decodeWith_complete hlen (FixedCodecs.readFrom_image hf h hlen)

theorem Tuple.packed_codec_recovers {fields : FixedCodecs τ} (hf : fields.Lawful) {as : τ}
    (h : fields.Recover as) : (Tuple.packed fields).codec.Recovers as := by
  intro bytes henc
  rw [encode_packed_codec hf] at henc
  exact packed_roundTrips hf h bytes henc

theorem Tuple.hybrid_roundTrips {head : FixedCodecs τ} {last : Codec β} (hhead : head.Lawful)
    (hlast : last.Lawful) {as : τ} {b : β} (has : head.Recover as) (hb : last.Recovers b) :
    RoundTrips (Tuple.hybrid head last).encode (Tuple.hybrid head last).decode (as, b) := by
  intro bytes henc hlen
  rw [encode_hybrid hhead hlast] at henc
  obtain ⟨back, hback, hbytes⟩ := Outcome.bind_eq_ok.mp henc
  obtain rfl : head.image as ++ back = bytes := Except.ok.inj hbytes
  rw [List.length_append] at hlen
  refine (reads_hybrid head last).decodeWith_complete (by rwa [List.length_append]) ?_
  exact ⟨_, _, rfl, FixedCodecs.readFrom_image hhead has (by omega), rfl,
    hb back hback (by omega)⟩

/-! ### Records of fields of any size -/

/-- Every field is recovered. -/
def Codecs.Recover : {τ : Type} → Codecs τ → τ → Prop
  | _, .nil, _ => True
  | _, .cons head tail, (a, as) => head.Recovers a ∧ tail.Recover as

theorem Codec.StandsAs.length_le {c : Codec α} {w : LengthWidth} {isLast : Bool}
    {own front rest : Bytes} (h : c.StandsAs w isLast own front rest) :
    own.length ≤ front.length := by
  cases hsize : c.size? with
  | some size =>
    rw [((standsAs_sized hsize).mp h).2]
  | none =>
    cases isLast with
    | true => rw [((standsAs_last hsize).mp h).2]
    | false =>
      rw [(LengthWidth.frame_eq_ok.mp ((standsAs_framed hsize).mp h)).2, List.length_append]
      exact Nat.le_add_left _ _

/-- Joined fields are found again one by one. Nothing stands behind the last, so it ends with the
record. -/
theorem Codecs.mixedFrom_of_joinFields {w : LengthWidth} {fields : Codecs τ} (hf : fields.Lawful)
    {as : τ} (h : fields.Recover as) {bytes : Bytes}
    (hjoin : joinFields w true (fields.fieldEncodings as) = .ok bytes)
    (hlen : bytes.length < wordLimit) : fields.MixedFrom w bytes [] as := by
  induction fields generalizing bytes with
  | nil => exact (Except.ok.inj hjoin).symm
  | cons head tail ih =>
    obtain ⟨a, as⟩ := as
    obtain ⟨first, hfirst, hjoin⟩ := Outcome.bind_eq_ok.mp hjoin
    obtain ⟨second, hsecond, hjoin⟩ := Outcome.bind_eq_ok.mp hjoin
    obtain rfl : first ++ second = bytes := Except.ok.inj hjoin
    rw [List.length_append] at hlen
    rw [isEmpty_fieldEncodings, Bool.true_and] at hfirst
    have hrest : tail.count == 0 → second ++ [] = [] := by
      intro hcount
      cases tail with
      | nil => rw [← Except.ok.inj hsecond]; rfl
      | cons _ _ => cases hcount
    obtain ⟨own, hown, hstands⟩ := hf.1.standsAs hfirst hrest
    have ha := h.1 own hown (Nat.lt_of_le_of_lt hstands.length_le (by omega))
    exact ⟨first, second, rfl, ⟨own, hstands, ha⟩, ih hf.2 h.2 hsecond (by omega)⟩

theorem Tuple.mixed_roundTrips {fields : Codecs τ} (hf : fields.Lawful) {as : τ}
    (h : fields.Recover as) (w : LengthWidth) :
    RoundTrips ((Tuple.mixed fields).encode w) ((Tuple.mixed fields).decode w) as := by
  intro bytes henc hlen
  rw [encode_mixed hf] at henc
  exact (reads_readMixed w fields).decodeWith_complete hlen
    (Codecs.mixedFrom_of_joinFields hf h henc hlen)

theorem Codecs.decodes_of_encodeFields {fields : Codecs τ} {as : τ} (h : fields.Recover as)
    {owns : List Bytes} (hencode : Tuple.encodeFields fields as = .ok owns)
    (hlen : owns.flatten.length < wordLimit) : fields.Decodes owns as := by
  induction fields generalizing owns with
  | nil => exact (Except.ok.inj hencode).symm
  | cons head tail ih =>
    obtain ⟨a, as⟩ := as
    obtain ⟨own, hown, hencode⟩ := Outcome.bind_eq_ok.mp hencode
    obtain ⟨others, hothers, hencode⟩ := Outcome.bind_eq_ok.mp hencode
    obtain rfl : own :: others = owns := Except.ok.inj hencode
    rw [List.flatten_cons, List.length_append] at hlen
    exact ⟨own, others, rfl, h.1 own hown (by omega), ih h.2 hothers (by omega)⟩

theorem Tuple.dynamic_roundTrips {fields : Codecs τ} {as : τ} (h : fields.Recover as)
    (w : LengthWidth) :
    RoundTrips ((Tuple.dynamic fields).encode w) ((Tuple.dynamic fields).decode w) as := by
  intro bytes henc hlen
  rw [DynamicForm.encode_eq] at henc
  obtain ⟨owns, howns, hbytes⟩ := Outcome.bind_eq_ok.mp henc
  have hflatten : owns.flatten.length ≤ bytes.length := by
    obtain ⟨header, -, hheader⟩ := Outcome.bind_eq_ok.mp hbytes
    rw [← Except.ok.inj hheader, List.length_append]
    exact Nat.le_add_left _ _
  refine (reads_dynamic w fields).decodeWith_complete hlen ((dynamicFrom_iff w fields _ _).mpr ?_)
  exact ⟨owns, Codecs.decodes_of_encodeFields h howns (by omega), hbytes⟩

/-! ### Sequences -/

/-- What a recovered value is written as in a sequence, it is read from. -/
theorem Codec.Lawful.itemFrom {c : Codec α} (hc : c.Lawful) {w : LengthWidth} {a : α}
    (h : c.Recovers a) {front : Bytes}
    (hfront : (c.fieldEncoding a).written w false = .ok front) (hlen : front.length < wordLimit)
    (rest : Bytes) : c.ItemFrom w front rest a := by
  obtain ⟨own, hown, hstands⟩ :
      ∃ own, c.encode a = .ok own ∧ c.StandsAs w false own front rest :=
    hc.standsAs hfront fun hlast => nomatch hlast
  have hle : own.length ≤ front.length := hstands.length_le
  exact ⟨own, hstands, h own hown (by omega)⟩

theorem itemsFrom_of_joinFields {c : Codec α} (hc : c.Lawful) {w : LengthWidth} {as : List α}
    (h : ∀ a ∈ as, c.Recovers a) {bytes : Bytes}
    (hjoin : joinFields w false (as.map c.fieldEncoding) = .ok bytes)
    (hlen : bytes.length < wordLimit) : ItemsFrom (c.ItemFrom w) bytes as := by
  induction as generalizing bytes with
  | nil => exact (Except.ok.inj hjoin).symm
  | cons a as ih =>
    obtain ⟨ha, has⟩ := List.forall_mem_cons.mp h
    obtain ⟨first, hfirst, hjoin⟩ := Outcome.bind_eq_ok.mp hjoin
    obtain ⟨second, hsecond, hjoin⟩ := Outcome.bind_eq_ok.mp hjoin
    obtain rfl : first ++ second = bytes := Except.ok.inj hjoin
    rw [List.length_append] at hlen
    exact ⟨first, second, rfl, hc.itemFrom ha hfirst (by omega) second, ih has hsecond (by omega)⟩

theorem sequenceCodec_recovers {c : Codec α} (hc : c.Lawful) (w : LengthWidth) {as : List α}
    (h : ∀ a ∈ as, c.Recovers a) (hsize : as = [] ∨ c.size? ≠ some 0) :
    (sequenceCodec w c).Recovers as := by
  intro bytes henc hlen
  rw [encode_sequenceCodec hc] at henc
  exact decodeSequence_complete hlen hsize (itemsFrom_of_joinFields hc h henc hlen)

/-! ### Shapes -/

mutual

/-- Nothing about the value is lost in its encoding: where it is converted, converting back gives
it again. -/
def FixedShape.Recoverable {α : Type} : FixedShape α → α → Prop
  | .byte, _ => True
  | .integer _, _ => True
  | .bool, _ => True
  | .char, _ => True
  | .binary32, _ => True
  | .binary64, _ => True
  | .vector elem _, values => ∀ a ∈ values.toList, elem.Recoverable a
  | .enumeration _, _ => True
  | .packed fields iso, a => fields.Recoverable (iso.forth a)
  | .transparent inner iso, a => inner.Recoverable (iso.forth a)
  | .via base toBase ofBase, a => base.Recoverable (toBase a) ∧ ofBase (toBase a) = .ok a

/-- Nothing about any of the fields is lost. -/
def FixedShapes.Recoverable {τ : Type} : FixedShapes τ → τ → Prop
  | .nil, _ => True
  | .cons head tail, (a, as) => head.Recoverable a ∧ tail.Recoverable as

end

mutual

/-- Nothing about the value is lost in its encoding: where it is converted, converting back gives
it again, and no list or sequence in it that has values has values of no bytes. -/
def Shape.Recoverable {α : Type} : Shape α → α → Prop
  | .fixed shape, a => shape.Recoverable a
  | .text, _ => True
  | .natural, _ => True
  | .integer, _ => True
  | .list elem, as =>
    (∀ a ∈ as, elem.Recoverable a) ∧ (as = [] ∨ elem.codec.size? ≠ some 0)
  | .sequence _ elem, as =>
    (∀ a ∈ as, elem.Recoverable a) ∧ (as = [] ∨ elem.codec.size? ≠ some 0)
  | .hybrid head last iso, a =>
    head.Recoverable (iso.forth a).1 ∧ last.Recoverable (iso.forth a).2
  | .dynamic _ fields iso, a => fields.Recoverable (iso.forth a)
  | .mixed _ fields iso, a => fields.Recoverable (iso.forth a)
  | .transparent inner iso, a => inner.Recoverable (iso.forth a)
  | .via base toBase ofBase, a => base.Recoverable (toBase a) ∧ ofBase (toBase a) = .ok a

/-- Nothing about any of the fields is lost. -/
def Shapes.Recoverable {τ : Type} : Shapes τ → τ → Prop
  | .nil, _ => True
  | .cons head tail, (a, as) => head.Recoverable a ∧ tail.Recoverable as

end

mutual

theorem FixedShape.recovers {α : Type} :
    (s : FixedShape α) → (a : α) → s.Recoverable a → s.codec.Recovers a
  | .byte, a, _ => byteCodec_exact.recovers byteCodec_lawful a
  | .integer kind, a, _ => kind.codec_exact.recovers kind.codec_lawful a
  | .bool, a, _ => boolCodec_exact.recovers boolCodec_lawful a
  | .char, a, _ => charCodec_exact.recovers charCodec_lawful a
  | .binary32, a, _ => Binary32.codec_exact.recovers Binary32.codec_lawful a
  | .binary64, a, _ => Binary64.codec_exact.recovers Binary64.codec_lawful a
  | .vector elem _, _, h => elem.lawful.recovers_vectorCodec fun a ha => elem.recovers a (h a ha)
  | .enumeration e, a, _ => e.codec_exact.recovers e.codec_lawful a
  | .packed fields iso, a, h => by
    rw [FixedShape.codec, PackedForm.codec_imap]
    exact (Tuple.packed_codec_recovers fields.lawful (fields.recover _ h)).imap
  | .transparent inner _, _, h => (inner.recovers _ h).imap
  | .via base _ _, _, h => (base.recovers _ h.1).via h.2

theorem FixedShapes.recover {τ : Type} :
    (fields : FixedShapes τ) → (as : τ) → fields.Recoverable as → fields.codecs.Recover as
  | .nil, _, _ => trivial
  | .cons head tail, (a, as), h => ⟨head.recovers a h.1, tail.recover as h.2⟩

end

mutual

theorem Shape.recovers {α : Type} : (s : Shape α) → (a : α) → s.Recoverable a → s.codec.Recovers a
  | .fixed shape, a, h => shape.recovers a h
  | .text, s, _ => textCodec_recovers s
  | .natural, n, _ => naturalCodec_recovers n
  | .integer, n, _ => integerCodec_recovers n
  | .list elem, as, h => by
    refine listCodec_recovers elem.lawful (fun a ha => elem.recovers a (h.1 a ha)) ?_
    refine h.2.imp_right fun hsize hzero => hsize ?_
    rw [elem.lawful.size?_eq, hzero]
  | .sequence width elem, as, h =>
    sequenceCodec_recovers elem.lawful width (fun a ha => elem.recovers a (h.1 a ha)) h.2
  | .hybrid head last iso, a, h => by
    rw [Shape.codec, HybridForm.codec_imap]
    refine Codec.Recovers.imap ?_
    exact Tuple.hybrid_roundTrips head.lawful last.lawful (head.recover _ h.1) (last.recovers _ h.2)
  | .dynamic width fields iso, a, h => by
    rw [Shape.codec, DynamicForm.codec_imap]
    refine Codec.Recovers.imap ?_
    exact Tuple.dynamic_roundTrips (fields.recover _ h) width
  | .mixed width fields iso, a, h => by
    rw [Shape.codec, Record.mixed_eq_tuple, MixedForm.codec_imap]
    refine Codec.Recovers.imap ?_
    exact Tuple.mixed_roundTrips fields.lawful (fields.recover _ h) width
  | .transparent inner _, _, h => (inner.recovers _ h).imap
  | .via base _ _, _, h => (base.recovers _ h.1).via h.2

theorem Shapes.recover {τ : Type} :
    (fields : Shapes τ) → (as : τ) → fields.Recoverable as → fields.codecs.Recover as
  | .nil, _, _ => trivial
  | .cons head tail, (a, as), h => ⟨head.recovers a h.1, tail.recover as h.2⟩

end

/-- **Decoding undoes encoding.** A value of any shape comes back from its encoding, and so does a
tuple of values in each of the four forms, if nothing about it is lost and the encoding fits the
machine. -/
theorem encoding_roundTrips :
    (∀ {α : Type} (s : Shape α) (a : α), s.Recoverable a →
      RoundTrips s.codec.encode s.codec.decode a) ∧
    (∀ {τ : Type} (fields : FixedShapes τ) (as : τ), fields.Recoverable as →
      RoundTrips (Tuple.packed fields.codecs).encode (Tuple.packed fields.codecs).decode as) ∧
    (∀ {σ β : Type} (head : FixedShapes σ) (last : Shape β) (as : σ) (b : β),
      head.Recoverable as → last.Recoverable b →
      RoundTrips (Tuple.hybrid head.codecs last.codec).encode
        (Tuple.hybrid head.codecs last.codec).decode (as, b)) ∧
    (∀ {τ : Type} (fields : Shapes τ) (w : LengthWidth) (as : τ), fields.Recoverable as →
      RoundTrips ((Tuple.dynamic fields.codecs).encode w) ((Tuple.dynamic fields.codecs).decode w)
        as) ∧
    (∀ {τ : Type} (fields : Shapes τ) (w : LengthWidth) (as : τ), fields.Recoverable as →
      RoundTrips ((Tuple.mixed fields.codecs).encode w) ((Tuple.mixed fields.codecs).decode w)
        as) := by
  refine ⟨fun s a h => s.recovers a h, fun fields as h => ?_, fun head last as b has hb => ?_,
    fun fields w as h => ?_, fun fields w as h => ?_⟩
  · exact Tuple.packed_roundTrips fields.lawful (fields.recover as h)
  · exact Tuple.hybrid_roundTrips head.lawful last.lawful (head.recover as has) (last.recovers b hb)
  · exact Tuple.dynamic_roundTrips (fields.recover as h) w
  · exact Tuple.mixed_roundTrips fields.lawful (fields.recover as h) w

/-- A log, whose entries are a sequence inside a dynamic record, and a pair with a colour that is
converted to a number. -/
theorem encoding_roundTrips_at_log :
    Register.Log.shape.codec.decode
        [0, 8, 0, 2, 97, 98, 0, 2, 99, 100, 101] = .ok ⟨["ab", "cd"], "e"⟩ ∧
    (Tuple.packed (FixedShapes.cons Register.Rgb.shape (.cons .bool .nil)).codecs).decode
        [0, 1, 2, 3, 1] = .ok (⟨1, 2, 3⟩, true, ()) := by
  obtain ⟨hshapes, hpacked, -⟩ := encoding_roundTrips
  constructor
  · refine hshapes Register.Log.shape _ ?_ _ (by decide +kernel) (by decide)
    exact ⟨⟨fun _ _ => trivial, Or.inr (by decide)⟩, trivial, trivial⟩
  · refine hpacked _ _ ?_ _ (by decide +kernel) (by decide)
    exact ⟨⟨trivial, rfl⟩, trivial, trivial⟩

end WireForm
