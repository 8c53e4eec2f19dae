import WireForm.Proofs.Composite
import WireForm.Shape

/-!
# Every shape has a lawful codec

The laws of `WireForm.Proofs.FixedCodec` and `WireForm.Proofs.Composite` go through for every type
that can be described by a shape, by induction on the shape. Conversions to a base type need no
laws of their own for this: nothing is decoded here.

The form of a record, where a shape has one, encodes and decodes as the shape does, and no shape has
two of them.

## Main results

* `FixedShape.lawful`, `Shape.lawful` — and the same of the fields of a tuple
* `Shape.codec_of_packedForm?`, `Shape.codec_of_hybridForm?`, … — the forms of records
* `Shape.count_forms_le_one` — of which a shape has one at most
-/

namespace WireForm

/-! ### Fixed size -/

mutual

theorem FixedShape.lawful {α : Type} : (s : FixedShape α) → s.codec.Lawful
  | .byte => byteCodec_lawful
  | .integer kind => kind.codec_lawful
  | .bool => boolCodec_lawful
  | .char => charCodec_lawful
  | .binary32 => Binary32.codec_lawful
  | .binary64 => Binary64.codec_lawful
  | .vector elem n => elem.lawful.vectorCodec n
  | .enumeration e => e.codec_lawful
  | .packed fields iso =>
    PackedForm.codec_lawful (fun a => fields.codecs.image (iso.forth a))
      (fun _ => FixedCodecs.length_image fields.lawful _)
      fun _ _ => Tuple.store_eq fields.lawful _ _
  | .transparent inner iso => inner.lawful.imap iso
  | .via base toBase ofBase => base.lawful.via toBase ofBase

theorem FixedShapes.lawful {τ : Type} : (fields : FixedShapes τ) → fields.codecs.Lawful
  | .nil => trivial
  | .cons head tail => ⟨head.lawful, tail.lawful⟩

end

/-! ### Any size -/

/-- A codec of unknown size that appends the bytes `image` says. -/
theorem Codec.lawful_of_image {α : Type} {c : Codec α} (image : α → Bytes) (hsize : c.size? = none)
    (happend : ∀ a out, c.append a out = (.ok (), out ++ image a)) : c.Lawful :=
  Codec.lawful_of_unsized hsize (fun a => appends_ok (happend a)) fun _ => Outcome.ok_ne_crash _

theorem textCodec_lawful : textCodec.Lawful :=
  Codec.lawful_of_image Utf8.encode rfl fun _ _ => rfl

theorem naturalCodec_lawful : naturalCodec.Lawful :=
  Codec.lawful_of_image BigEndian.encodeNat rfl fun _ _ => rfl

theorem integerCodec_lawful : integerCodec.Lawful :=
  Codec.lawful_of_image BigEndian.encodeInt rfl fun _ _ => rfl

theorem Shape.eq_of_fixed? {α : Type} {s : Shape α} {shape : FixedShape α}
    (h : s.fixed? = some shape) : s = .fixed shape := by
  cases s with
  | fixed inner => rw [Option.some.inj h]
  | _ => cases h

mutual

theorem Shape.lawful {α : Type} : (s : Shape α) → s.codec.Lawful
  | .fixed shape => shape.lawful.toCodec
  | .text => textCodec_lawful
  | .natural => naturalCodec_lawful
  | .integer => integerCodec_lawful
  | .list elem => listCodec_lawful elem.lawful
  | .sequence width elem => sequenceCodec_lawful elem.lawful width
  | .hybrid head last iso => by
    rw [Shape.codec, HybridForm.codec_imap]
    exact (Tuple.hybrid_codec_lawful head.lawful last.lawful).imap iso
  | .dynamic width fields iso => by
    rw [Shape.codec, DynamicForm.codec_imap]
    exact (Tuple.dynamic_codec_lawful fields.lawful width).imap iso
  | .mixed width fields iso => by
    rw [Shape.codec, Record.mixed_eq_tuple, MixedForm.codec_imap]
    exact (Tuple.mixed_codec_lawful fields.lawful width).imap iso
  | .transparent inner iso => inner.lawful.imap iso
  | .via base toBase ofBase => base.lawful.via toBase ofBase

theorem Shapes.lawful {τ : Type} : (fields : Shapes τ) → fields.codecs.Lawful
  | .nil => trivial
  | .cons head tail => ⟨head.lawful, tail.lawful⟩

end

/-! ### The forms of records -/

namespace Shape

variable {α : Type} {s : Shape α}

theorem codec_of_packedForm? {f : PackedForm α} (h : s.packedForm? = some f) :
    s.codec = f.codec.toCodec := by
  cases s with
  | fixed shape =>
    cases shape with
    | packed fields iso => rw [← Option.some.inj h, codec, FixedShape.codec]
    | _ => cases h
  | _ => cases h

/-- The form of a hybrid record says nothing of the size of a value, but the shape does. -/
theorem codec_of_hybridForm? {f : HybridForm α} (h : s.hybridForm? = some f) :
    s.codec = f.codec s.codec.size? := by
  cases s with
  | hybrid head last iso =>
    rw [← Option.some.inj h, codec]
    rfl
  | _ => cases h

theorem codec_of_dynamicForm? {f : DynamicForm α} (h : s.dynamicForm? = some f) :
    ∃ width, s.codec = f.codec width := by
  cases s with
  | dynamic width fields iso => exact ⟨width, by rw [← Option.some.inj h, codec]⟩
  | _ => cases h

theorem codec_of_mixedForm? {f : MixedForm α} (h : s.mixedForm? = some f) :
    ∃ width, s.codec = f.codec width s.codec.size? := by
  cases s with
  | mixed width fields iso =>
    refine ⟨width, ?_⟩
    rw [← Option.some.inj h, codec]
    rfl
  | _ => cases h

/-- No shape has two forms. -/
theorem count_forms_le_one (s : Shape α) :
    [s.packedForm?.isSome, s.hybridForm?.isSome, s.dynamicForm?.isSome,
      s.mixedForm?.isSome].count true ≤ 1 := by
  cases s with
  | fixed shape => cases shape <;> simp [packedForm?, hybridForm?, dynamicForm?, mixedForm?]
  | _ => simp [packedForm?, hybridForm?, dynamicForm?, mixedForm?]

end Shape

end WireForm
