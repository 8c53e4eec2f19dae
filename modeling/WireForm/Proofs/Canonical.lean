import WireForm.Proofs.SequenceReading
import WireForm.Proofs.ShapeLaws
import WireForm.Register.Shapes

/-!
# What is decoded is encoded in that way

A decoder that accepts bytes which no encoder writes gives several encodings to one value. These
do not: where decoding succeeds at all, encoding the result gives back the same bytes. Nothing is
assumed about where the bytes come from, and no length has to fit anything, since a length that was
read is short enough to be written.

The two exceptions are made on purpose. Numbers of any size are read with leading zeros that are
never written, and a type that stands for a base type can be read from several base values.
`Shape.IsCanonical` leaves out both.

## Main definitions

* `Canonical`, `Codec.Canonical` — encoding undoes decoding, on every byte string
* `FixedShape.IsCanonical`, `Shape.IsCanonical` — the shapes of which this holds

## Main results

* `FixedShape.canonical`, `Shape.canonical` — these shapes have canonical codecs
* `encoding_canonical` — the same with tuples, and that no value has two encodings
-/

namespace WireForm

variable {α β τ : Type}

/-- Encoding a decoded value gives the bytes that it was decoded from. -/
def Canonical (encode : α → Outcome Bytes) (decode : Bytes → Outcome α) : Prop :=
  ∀ bytes a, decode bytes = .ok a → encode a = .ok bytes

/-- No value is decoded from two byte strings. -/
theorem Canonical.injective {encode : α → Outcome Bytes} {decode : Bytes → Outcome α}
    (h : Canonical encode decode) {bytes bytes' : Bytes} {a : α} (hbytes : decode bytes = .ok a)
    (hbytes' : decode bytes' = .ok a) : bytes = bytes' :=
  Except.ok.inj ((h bytes a hbytes).symm.trans (h bytes' a hbytes'))

/-- The codec accepts the bytes it writes and no others. -/
def Codec.Canonical (c : Codec α) : Prop := WireForm.Canonical c.encode c.decode

/-! ### Single values -/

theorem FixedCodec.Exact.canonical {c : FixedCodec α} (h : c.Exact) (hc : c.Lawful) :
    c.Canonical := by
  intro bytes a hdec
  rw [hc.encode_eq, (h bytes a).mp hdec]

theorem Codec.Canonical.imap {c : Codec β} (h : c.Canonical) (iso : Iso α β) :
    (c.imap iso).Canonical := by
  intro bytes a hdec
  obtain ⟨b, hb, rfl⟩ := Outcome.map_eq_ok.mp hdec
  show c.encode (iso.forth (iso.back b)) = .ok bytes
  rw [iso.forth_back]
  exact h bytes b hb

theorem Codec.Canonical.via {c : Codec β} (h : c.Canonical) {toBase : α → β}
    {ofBase : β → Outcome α} (hback : ∀ b a, ofBase b = .ok a → toBase a = b) :
    (c.via toBase ofBase).Canonical := by
  intro bytes a hdec
  obtain ⟨b, hb, ha⟩ := Outcome.bind_eq_ok.mp hdec
  show c.encode (toBase a) = .ok bytes
  rw [hback b a ha]
  exact h bytes b hb

theorem textCodec_canonical : textCodec.Canonical := by
  intro bytes s hdec
  have hdec : Utf8.decode bytes = .ok s := hdec
  rw [Utf8.decode, String.fromUTF8?] at hdec
  by_cases hvalid : ByteArray.IsValidUTF8 ⟨bytes.toArray⟩
  · rw [dif_pos hvalid] at hdec
    rw [← Except.ok.inj hdec]
    rfl
  · rw [dif_neg hvalid] at hdec
    cases hdec

/-! ### Runs of values of a fixed size -/

namespace FixedCodec.Lawful

variable {c : FixedCodec α}

/-- Bytes that a canonical codec decodes are an image. -/
theorem eq_image (hc : c.Lawful) (h : c.Canonical) {bytes : Bytes} {a : α}
    (hdec : c.decode bytes = .ok a) : bytes = c.image a :=
  Except.ok.inj ((h bytes a hdec).symm.trans (hc.encode_eq a))

/-- Chunks that decode to values are the images of these. -/
theorem flatten_eq (hc : c.Lawful) (h : c.Canonical) {bs : List Bytes} {as : List α}
    (hdec : List.Forall₂ (fun b a => c.decode b = .ok a) bs as) :
    bs.flatten = as.flatMap c.image := by
  induction hdec with
  | nil => rfl
  | cons hb _ ih => rw [List.flatten_cons, hc.eq_image h hb, ih, List.flatMap_cons]

theorem canonical_vectorCodec (hc : c.Lawful) (h : c.Canonical) (n : Nat) :
    (WireForm.vectorCodec c n).Canonical := by
  intro bytes values hdec
  obtain ⟨bs, rfl, -, hvalues⟩ := hc.decodeVector_eq_ok.mp hdec
  rw [(hc.vectorCodec n).encode_eq, hc.image_vectorCodec, hc.flatten_eq h hvalues]

end FixedCodec.Lawful

theorem listCodec_canonical {c : FixedCodec α} (hc : c.Lawful) (h : c.Canonical) :
    (listCodec c).Canonical := by
  intro bytes as hdec
  have hdec : c.decodeAll bytes = .ok as := hdec
  rw [hc.decodeAll_eq] at hdec
  rw [encode_listCodec hc]
  by_cases hzero : c.size = 0
  · rw [hzero] at hdec
    obtain ⟨rfl, rfl⟩ := decodeChunks_zero.mp hdec
    rfl
  · obtain ⟨bs, rfl, -, has⟩ := (decodeChunks_eq_ok (Nat.pos_of_ne_zero hzero)).mp hdec
    rw [hc.flatten_eq h has]

/-! ### Records and sequences -/

/-- All codecs are canonical. -/
def FixedCodecs.Canonical : {τ : Type} → FixedCodecs τ → Prop
  | _, .nil => True
  | _, .cons head tail => head.Canonical ∧ tail.Canonical

/-- All codecs are canonical. -/
def Codecs.Canonical : {τ : Type} → Codecs τ → Prop
  | _, .nil => True
  | _, .cons head tail => head.Canonical ∧ tail.Canonical

theorem FixedCodecs.eq_image_of_readFrom {fields : FixedCodecs τ} (hf : fields.Lawful)
    (h : fields.Canonical) {bytes : Bytes} {as : τ} (hread : fields.ReadFrom bytes as) :
    bytes = fields.image as := by
  induction fields generalizing bytes with
  | nil => exact hread
  | cons head tail ih =>
    obtain ⟨a, as⟩ := as
    obtain ⟨first, second, rfl, ⟨-, ha⟩, has⟩ := hread
    rw [hf.1.eq_image h.1 ha, ih hf.2 h.2 has, image]

theorem Tuple.packed_canonical {fields : FixedCodecs τ} (hf : fields.Lawful)
    (h : fields.Canonical) :
    Canonical (Tuple.packed fields).encode (Tuple.packed fields).decode := by
  intro bytes as hdec
  rw [PackedForm.decode] at hdec
  split at hdec
  · have hread := (reads_readFixed fields).decodeWith_sound hdec
    rw [encode_packed hf, FixedCodecs.eq_image_of_readFrom hf h hread]
  · cases hdec

theorem Tuple.packed_codec_canonical {fields : FixedCodecs τ} (hf : fields.Lawful)
    (h : fields.Canonical) : (Tuple.packed fields).codec.Canonical := by
  intro bytes as hdec
  rw [encode_packed_codec hf]
  exact packed_canonical hf h bytes as hdec

theorem Tuple.hybrid_canonical {head : FixedCodecs τ} {last : Codec β} (hhead : head.Lawful)
    (hlast : last.Lawful) (has : head.Canonical) (hb : last.Canonical) :
    Canonical (Tuple.hybrid head last).encode (Tuple.hybrid head last).decode := by
  rintro bytes ⟨as, b⟩ hdec
  obtain ⟨first, second, rfl, hread, -, hdecode⟩ := (reads_hybrid head last).decodeWith_sound hdec
  rw [encode_hybrid hhead hlast, hb second b hdecode,
    FixedCodecs.eq_image_of_readFrom hhead has hread]
  rfl

theorem Codecs.encodeFields_of_decodes {fields : Codecs τ} (h : fields.Canonical)
    {owns : List Bytes} {as : τ} (hdec : fields.Decodes owns as) :
    Tuple.encodeFields fields as = .ok owns := by
  induction fields generalizing owns with
  | nil => rw [show owns = [] from hdec]; rfl
  | cons head tail ih =>
    obtain ⟨a, as⟩ := as
    obtain ⟨own, others, rfl, ha, has⟩ := hdec
    rw [Tuple.encodeFields, h.1 own a ha, ih h.2 has]
    rfl

theorem Tuple.dynamic_canonical {fields : Codecs τ} (h : fields.Canonical) (w : LengthWidth) :
    Canonical ((Tuple.dynamic fields).encode w) ((Tuple.dynamic fields).decode w) := by
  intro bytes as hdec
  have hread := (reads_dynamic w fields).decodeWith_sound hdec
  obtain ⟨owns, howns, hbytes⟩ := (dynamicFrom_iff w fields bytes as).mp hread
  rw [DynamicForm.encode_eq]
  exact Outcome.bind_eq_ok.mpr ⟨owns, Codecs.encodeFields_of_decodes h howns, hbytes⟩

/-- Where the fields of a mixed record were found is where the reference puts them. -/
theorem Codecs.joinFields_of_mixedFrom {w : LengthWidth} {fields : Codecs τ} (h : fields.Canonical)
    {bytes rest : Bytes} {as : τ} (hread : fields.MixedFrom w bytes rest as) :
    joinFields w true (fields.fieldEncodings as) = .ok bytes := by
  induction fields generalizing bytes with
  | nil => rw [show bytes = [] from hread]; rfl
  | cons head tail ih =>
    obtain ⟨a, as⟩ := as
    obtain ⟨first, second, rfl, ⟨own, hstands, ha⟩, has⟩ := hread
    have hfirst := hstands.written_eq (h.1 own a ha)
    rw [fieldEncodings, joinFields, isEmpty_fieldEncodings, Bool.true_and, hfirst, ih h.2 has]
    rfl

theorem Tuple.mixed_canonical {fields : Codecs τ} (hf : fields.Lawful) (h : fields.Canonical)
    (w : LengthWidth) :
    Canonical ((Tuple.mixed fields).encode w) ((Tuple.mixed fields).decode w) := by
  intro bytes as hdec
  have hread := (reads_readMixed w fields).decodeWith_sound hdec
  rw [encode_mixed hf]
  exact Codecs.joinFields_of_mixedFrom h hread

theorem joinFields_of_itemsFrom {w : LengthWidth} {c : Codec α} (h : c.Canonical) {bytes : Bytes}
    {as : List α} (hitems : ItemsFrom (c.ItemFrom w) bytes as) :
    joinFields w false (as.map c.fieldEncoding) = .ok bytes := by
  induction as generalizing bytes with
  | nil => rw [show bytes = [] from hitems]; rfl
  | cons a as ih =>
    obtain ⟨first, second, rfl, ⟨own, hstands, ha⟩, hitems⟩ := hitems
    have hfirst := hstands.written_eq (h own a ha)
    rw [List.map_cons, joinFields, Bool.false_and, hfirst, ih hitems]
    rfl

theorem sequenceCodec_canonical {c : Codec α} (hc : c.Lawful) (h : c.Canonical) (w : LengthWidth) :
    (sequenceCodec w c).Canonical := by
  intro bytes as hdec
  rw [encode_sequenceCodec hc]
  exact joinFields_of_itemsFrom h (decodeSequence_sound hdec)

/-! ### Shapes -/

mutual

/-- Conversions from base values lose nothing about them. -/
def FixedShape.IsCanonical {α : Type} : FixedShape α → Prop
  | .byte => True
  | .integer _ => True
  | .bool => True
  | .char => True
  | .binary32 => True
  | .binary64 => True
  | .vector elem _ => elem.IsCanonical
  | .enumeration _ => True
  | .packed fields _ => fields.IsCanonical
  | .transparent inner _ => inner.IsCanonical
  | .via base toBase ofBase => base.IsCanonical ∧ ∀ b a, ofBase b = .ok a → toBase a = b

/-- The same of all fields. -/
def FixedShapes.IsCanonical {τ : Type} : FixedShapes τ → Prop
  | .nil => True
  | .cons head tail => head.IsCanonical ∧ tail.IsCanonical

end

mutual

/-- Conversions from base values lose nothing about them, and there are no numbers of any size. -/
def Shape.IsCanonical {α : Type} : Shape α → Prop
  | .fixed shape => shape.IsCanonical
  | .text => True
  | .natural => False
  | .integer => False
  | .list elem => elem.IsCanonical
  | .sequence _ elem => elem.IsCanonical
  | .hybrid head last _ => head.IsCanonical ∧ last.IsCanonical
  | .dynamic _ fields _ => fields.IsCanonical
  | .mixed _ fields _ => fields.IsCanonical
  | .transparent inner _ => inner.IsCanonical
  | .via base toBase ofBase => base.IsCanonical ∧ ∀ b a, ofBase b = .ok a → toBase a = b

/-- The same of all fields. -/
def Shapes.IsCanonical {τ : Type} : Shapes τ → Prop
  | .nil => True
  | .cons head tail => head.IsCanonical ∧ tail.IsCanonical

end

mutual

theorem FixedShape.canonical {α : Type} : (s : FixedShape α) → s.IsCanonical → s.codec.Canonical
  | .byte, _ => byteCodec_exact.canonical byteCodec_lawful
  | .integer kind, _ => kind.codec_exact.canonical kind.codec_lawful
  | .bool, _ => boolCodec_exact.canonical boolCodec_lawful
  | .char, _ => charCodec_exact.canonical charCodec_lawful
  | .binary32, _ => Binary32.codec_exact.canonical Binary32.codec_lawful
  | .binary64, _ => Binary64.codec_exact.canonical Binary64.codec_lawful
  | .vector elem n, h => elem.lawful.canonical_vectorCodec (elem.canonical h) n
  | .enumeration e, _ => e.codec_exact.canonical e.codec_lawful
  | .packed fields iso, h => by
    rw [FixedShape.codec, PackedForm.codec_imap]
    exact (Tuple.packed_codec_canonical fields.lawful (fields.canonical h)).imap iso
  | .transparent inner iso, h => (inner.canonical h).imap iso
  | .via base _ _, h => (base.canonical h.1).via h.2

theorem FixedShapes.canonical {τ : Type} :
    (fields : FixedShapes τ) → fields.IsCanonical → fields.codecs.Canonical
  | .nil, _ => trivial
  | .cons head tail, h => ⟨head.canonical h.1, tail.canonical h.2⟩

end

mutual

theorem Shape.canonical {α : Type} : (s : Shape α) → s.IsCanonical → s.codec.Canonical
  | .fixed shape, h => shape.canonical h
  | .text, _ => textCodec_canonical
  | .list elem, h => listCodec_canonical elem.lawful (elem.canonical h)
  | .sequence width elem, h => sequenceCodec_canonical elem.lawful (elem.canonical h) width
  | .hybrid head last iso, h => by
    rw [Shape.codec, HybridForm.codec_imap]
    refine Codec.Canonical.imap ?_ iso
    exact Tuple.hybrid_canonical head.lawful last.lawful (head.canonical h.1) (last.canonical h.2)
  | .dynamic width fields iso, h => by
    rw [Shape.codec, DynamicForm.codec_imap]
    refine Codec.Canonical.imap ?_ iso
    exact Tuple.dynamic_canonical (fields.canonical h) width
  | .mixed width fields iso, h => by
    rw [Shape.codec, Record.mixed_eq_tuple, MixedForm.codec_imap]
    refine Codec.Canonical.imap ?_ iso
    exact Tuple.mixed_canonical fields.lawful (fields.canonical h) width
  | .transparent inner iso, h => (inner.canonical h).imap iso
  | .via base _ _, h => (base.canonical h.1).via h.2

theorem Shapes.canonical {τ : Type} :
    (fields : Shapes τ) → fields.IsCanonical → fields.codecs.Canonical
  | .nil, _ => trivial
  | .cons head tail, h => ⟨head.canonical h.1, tail.canonical h.2⟩

end

/-- **Encoding undoes decoding.** Any bytes that are decoded, as a value of a canonical shape or as
a tuple in one of the four forms, are what the result is encoded to. So no value is decoded from
two byte strings. -/
theorem encoding_canonical :
    (∀ {α : Type} (s : Shape α), s.IsCanonical → Canonical s.codec.encode s.codec.decode) ∧
    (∀ {τ : Type} (fields : FixedShapes τ), fields.IsCanonical →
      Canonical (Tuple.packed fields.codecs).encode (Tuple.packed fields.codecs).decode) ∧
    (∀ {σ β : Type} (head : FixedShapes σ) (last : Shape β), head.IsCanonical → last.IsCanonical →
      Canonical (Tuple.hybrid head.codecs last.codec).encode
        (Tuple.hybrid head.codecs last.codec).decode) ∧
    (∀ {τ : Type} (fields : Shapes τ) (w : LengthWidth), fields.IsCanonical →
      Canonical ((Tuple.dynamic fields.codecs).encode w)
        ((Tuple.dynamic fields.codecs).decode w)) ∧
    (∀ {τ : Type} (fields : Shapes τ) (w : LengthWidth), fields.IsCanonical →
      Canonical ((Tuple.mixed fields.codecs).encode w) ((Tuple.mixed fields.codecs).decode w)) ∧
    (∀ {α : Type} (s : Shape α), s.IsCanonical → ∀ bytes bytes' a,
      s.codec.decode bytes = .ok a → s.codec.decode bytes' = .ok a → bytes = bytes') := by
  refine ⟨fun s h => s.canonical h, fun fields h => ?_, fun head last hhead hlast => ?_,
    fun fields w h => ?_, fun fields w h => ?_, fun s h bytes bytes' a => ?_⟩
  · exact Tuple.packed_canonical fields.lawful (fields.canonical h)
  · exact Tuple.hybrid_canonical head.lawful last.lawful (head.canonical hhead)
      (last.canonical hlast)
  · exact Tuple.dynamic_canonical (fields.canonical h) w
  · exact Tuple.mixed_canonical fields.lawful (fields.canonical h) w
  · exact (s.canonical h).injective

/-- A share, which is checked when it is converted, and a tuple with a length in it. -/
theorem encoding_canonical_at_percent :
    Register.Percent.shape.codec.encode ⟨50⟩ = .ok [50] ∧
    (Tuple.mixed (Shapes.cons (.list .byte) (.cons (.list .bool) .nil)).codecs).encode .one
      ([7, 8], [true], ()) = .ok [2, 7, 8, 1] := by
  obtain ⟨hshapes, -, -, -, hmixed, -⟩ := encoding_canonical
  constructor
  · refine hshapes Register.Percent.shape ⟨trivial, fun n p h => ?_⟩ _ _ rfl
    dsimp only at h
    split at h
    · cases h
    · rw [← Except.ok.inj h]
  · refine hmixed (.cons (.list .byte) (.cons (.list .bool) .nil)) .one ?_ _ _ (by decide +kernel)
    exact ⟨trivial, trivial, trivial⟩

end WireForm
