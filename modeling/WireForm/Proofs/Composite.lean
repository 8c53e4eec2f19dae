import WireForm.Composite.Record
import WireForm.Proofs.Join
import WireForm.Sequence

/-!
# Laws of composites

A codec is lawful when it keeps the appending contract, promises no size that it does not keep and
never crashes. Here is what records and sequences of lawful codecs append: packed and hybrid records
are concatenations of images, mixed records and sequences are joined fields, and dynamic records
stand behind a header. A record with a declaration and a tuple with the same fields are the same
thing in the mixed form, so only the tuple is dealt with.

## Main definitions

* `Codec.Lawful`, `Codecs.Lawful`, `FixedCodecs.Lawful` — the laws, of one codec or of all
* `FixedCodecs.image` — the bytes of fields of fixed sizes
* `Codecs.fieldEncodings` — the fields of a value, each on its own

## Main results

* `Record.mixed_eq_tuple` — declared records and tuples
* `Tuple.appends_packed`, `Tuple.appends_hybrid`, `appends_dynamicForm`,
  `Tuple.appends_writeMixed`, `appends_sequence` — what each form appends
* `PackedForm.codec_imap`, `HybridForm.codec_imap`, `DynamicForm.codec_imap`,
  `MixedForm.codec_imap` — a converted form has the converted codec
-/

namespace WireForm

variable {α β τ : Type}

/-- What a composite relies on in the codecs of its fields. -/
structure Codec.Lawful (c : Codec α) : Prop where
  /-- What is appended does not depend on what the buffer holds. -/
  appends : ∀ a, Appends (c.append a) (c.encode a)
  /-- A promised size is the size of every encoding, and there always is one. -/
  sized : ∀ size, c.size? = some size → ∀ a, ∃ bytes, c.encode a = .ok bytes ∧ bytes.length = size
  /-- Encoding does not crash. -/
  ne_crash : ∀ a, c.encode a ≠ crash

theorem Codec.lawful_of_appends {c : Codec α} {o : α → Outcome Bytes}
    (happends : ∀ a, Appends (c.append a) (o a))
    (hsized : ∀ size, c.size? = some size → ∀ a, ∃ bytes, o a = .ok bytes ∧ bytes.length = size)
    (hcrash : ∀ a, o a ≠ crash) : c.Lawful where
  appends a := by rw [(happends a).encode_eq]; exact happends a
  sized size h a := by rw [(happends a).encode_eq]; exact hsized size h a
  ne_crash a := by rw [(happends a).encode_eq]; exact hcrash a

theorem FixedCodec.Lawful.toCodec {c : FixedCodec α} (h : c.Lawful) : c.toCodec.Lawful := by
  refine Codec.lawful_of_appends (fun a => appends_ok (h.append_eq a)) ?_ fun a hcrash => ?_
  · intro size hsize a
    rw [h.size?_eq] at hsize
    exact ⟨c.image a, rfl, by rw [h.length_image, Option.some.inj hsize]⟩
  · cases hcrash

/-! ### Fields of fixed sizes -/

/-- All codecs are lawful. -/
def FixedCodecs.Lawful : {τ : Type} → FixedCodecs τ → Prop
  | _, .nil => True
  | _, .cons head tail => head.Lawful ∧ tail.Lawful

/-- The images of all fields. -/
def FixedCodecs.image : {τ : Type} → FixedCodecs τ → τ → Bytes
  | _, .nil, _ => []
  | _, .cons head tail, (a, as) => head.image a ++ tail.image as

namespace FixedCodecs

theorem length_image {fields : FixedCodecs τ} (h : fields.Lawful) (as : τ) :
    (fields.image as).length = fields.totalSize := by
  induction fields with
  | nil => rfl
  | cons head tail ih =>
    obtain ⟨a, as⟩ := as
    rw [image, totalSize, List.length_append, h.1.length_image, ih h.2]

theorem total?_sizes_append {fields : FixedCodecs τ} (h : fields.Lawful) (last : Option Nat) :
    Length.total? (fields.sizes ++ [last]) = last.map (fields.totalSize + ·) := by
  induction fields with
  | nil => cases last <;> simp [sizes, Length.total?, totalSize]
  | cons head tail ih =>
    rw [sizes, List.cons_append, h.1.size?_eq, Length.total?, ih h.2, totalSize]
    cases last <;> simp [Nat.add_assoc]

end FixedCodecs

namespace Tuple

theorem store_eq {fields : FixedCodecs τ} (h : fields.Lawful) (as : τ) (dst : Bytes)
    (hlen : dst.length = fields.totalSize) : store fields as dst = .ok (fields.image as) := by
  induction fields generalizing dst with
  | nil => rw [store, List.length_eq_zero_iff.mp hlen]; rfl
  | cons head tail ih =>
    obtain ⟨a, as⟩ := as
    rw [FixedCodecs.totalSize] at hlen
    rw [store, if_neg (by omega), h.1.store_eq a _ (by rw [List.length_take]; omega),
      Outcome.ok_bind, ih h.2 as _ (by rw [List.length_drop]; omega)]
    rfl

/-- Room for a packed record is stored over, so it does not matter where in the buffer it is. -/
theorem appends_packed {fields : FixedCodecs τ} (h : fields.Lawful) (as : τ) :
    Appends ((packed fields).append as) (.ok (fields.image as)) :=
  appends_ok (appendStored_eq (store_eq h) as)

theorem encode_packed {fields : FixedCodecs τ} (h : fields.Lawful) (as : τ) :
    (packed fields).encode as = .ok (fields.image as) :=
  store_eq h as _ List.length_replicate

theorem writeFixed_eq {fields : FixedCodecs τ} (h : fields.Lawful) (as : τ) (out : Bytes) :
    writeFixed fields as out = (.ok (), out ++ fields.image as) := by
  induction fields generalizing out with
  | nil => simp [writeFixed, FixedCodecs.image]
  | cons head tail ih =>
    obtain ⟨a, as⟩ := as
    rw [writeFixed, Step.bind_of_ok (h.1.appendFixed_eq a out), ih h.2, FixedCodecs.image,
      List.append_assoc]

theorem appends_hybrid {head : FixedCodecs τ} {last : Codec β} (hhead : head.Lawful)
    (hlast : last.Lawful) (as : τ) (b : β) :
    Appends ((hybrid head last).write (as, b))
      (do let back ← last.encode b; return head.image as ++ back) :=
  (appends_ok (writeFixed_eq hhead as)).bind (hlast.appends b)

end Tuple

/-- A packed record is lawful when it overwrites any slice of its size with an image. -/
theorem PackedForm.codec_lawful {f : PackedForm α} (image : α → Bytes)
    (hlen : ∀ a, (image a).length = f.totalSize)
    (hstore : ∀ a dst, dst.length = f.totalSize → f.store a dst = .ok (image a)) :
    f.codec.Lawful :=
  Codec.lawful_fixed image rfl hlen (appendStored_eq hstore) hstore

/-! ### Fields of any size -/

/-- All codecs are lawful. -/
def Codecs.Lawful : {τ : Type} → Codecs τ → Prop
  | _, .nil => True
  | _, .cons head tail => head.Lawful ∧ tail.Lawful

/-- The fields of a tuple, each encoded on its own. -/
def Codecs.fieldEncodings : {τ : Type} → Codecs τ → τ → List FieldEncoding
  | _, .nil, _ => []
  | _, .cons head tail, (a, as) => head.fieldEncoding a :: tail.fieldEncodings as

theorem Codecs.isEmpty_fieldEncodings (fields : Codecs τ) (as : τ) :
    (fields.fieldEncodings as).isEmpty = (fields.count == 0) := by
  cases fields <;> rfl

theorem Codecs.ne_crash_of_mem {fields : Codecs τ} (h : fields.Lawful) (as : τ) :
    ∀ field ∈ fields.fieldEncodings as, field.own ≠ crash := by
  induction fields with
  | nil => intro field hfield; cases hfield
  | cons head tail ih =>
    obtain ⟨a, as⟩ := as
    exact List.forall_mem_cons.mpr ⟨h.1.ne_crash a, ih h.2 as⟩

theorem Writer.appends_written {w : LengthWidth} {c : Codec α} (h : c.Lawful) (a : α)
    (isLast : Bool) : Appends (field w c a isLast) ((c.fieldEncoding a).written w isLast) :=
  appends_field (h.appends a) isLast

namespace Tuple

/-- A field is the last when no other follows it. -/
theorem writeMixed_cons (w : LengthWidth) (head : Codec α) (tail : Codecs τ) (a : α) (as : τ) :
    writeMixed w (.cons head tail) (a, as) =
      (do Writer.field w head a (tail.count == 0); writeMixed w tail as) := by
  cases tail with
  | nil =>
    simp only [writeMixed]
    exact (bind_pure (Writer.field w head a true)).symm
  | cons _ _ =>
    simp only [writeMixed, Codecs.count]
    rfl

theorem readMixed_cons (w : LengthWidth) (head : Codec α) (tail : Codecs τ) :
    readMixed w (.cons head tail) =
      (do
        let a ← Reader.field w head (tail.count == 0)
        let as ← readMixed w tail
        return (a, as)) := by
  cases tail with
  | nil =>
    simp only [readMixed, pure_bind]
    rfl
  | cons _ _ =>
    simp only [readMixed, Codecs.count]
    rfl

theorem appends_writeMixed {w : LengthWidth} {fields : Codecs τ} (h : fields.Lawful) (as : τ) :
    Appends (writeMixed w fields as) (joinFields w true (fields.fieldEncodings as)) := by
  induction fields with
  | nil =>
    rw [writeMixed]
    exact Appends.pure
  | cons head tail ih =>
    obtain ⟨a, as⟩ := as
    rw [writeMixed_cons, Codecs.fieldEncodings, joinFields, Codecs.isEmpty_fieldEncodings,
      Bool.true_and]
    exact (Writer.appends_written h.1 a _).bind (ih h.2 as)

end Tuple

/-! ### Declared records -/

theorem lastFlags_succ (count : Nat) : lastFlags (count + 1) = (count == 0) :: lastFlags count := by
  rw [lastFlags, List.range_succ_eq_map, List.map_cons, List.map_map, lastFlags]
  congr 1
  · simp
  · simp [Function.comp_def]

namespace Record

theorem writeFlagged_eq (w : LengthWidth) (fields : Codecs τ) :
    writeFlagged w fields (lastFlags fields.count) = Tuple.writeMixed w fields := by
  induction fields with
  | nil =>
    funext as
    rw [writeFlagged, Tuple.writeMixed]
  | cons head tail ih =>
    funext as
    obtain ⟨a, as⟩ := as
    rw [Codecs.count, lastFlags_succ, writeFlagged, Tuple.writeMixed_cons, ih]

theorem readFlagged_eq (w : LengthWidth) (fields : Codecs τ) :
    readFlagged w fields (lastFlags fields.count) = Tuple.readMixed w fields := by
  induction fields with
  | nil => rw [readFlagged, Tuple.readMixed]
  | cons head tail ih =>
    rw [Codecs.count, lastFlags_succ, readFlagged, Tuple.readMixed_cons, ih]

/-- The flags of a declared record pick out the field that nothing follows, so the record reads and
writes as the tuple of its fields. -/
theorem mixed_eq_tuple (fields : Codecs τ) : Record.mixed fields = Tuple.mixed fields := by
  rw [Record.mixed, Tuple.mixed, MixedForm.mk.injEq]
  exact ⟨funext fun w => writeFlagged_eq w fields, funext fun w => readFlagged_eq w fields⟩

end Record

/-- Sized fields are never framed, and together as long as their sizes say. -/
theorem joinFields_of_total? {w : LengthWidth} {fields : Codecs τ} (h : fields.Lawful) {size : Nat}
    (hsize : Length.total? fields.sizes = some size) (as : τ) :
    ∃ bytes, joinFields w true (fields.fieldEncodings as) = .ok bytes ∧ bytes.length = size := by
  induction fields generalizing size with
  | nil => exact ⟨[], rfl, Option.some.inj hsize⟩
  | cons head tail ih =>
    obtain ⟨a, as⟩ := as
    rw [Codecs.sizes] at hsize
    cases hhead : head.size? with
    | none => rw [hhead] at hsize; cases hsize
    | some headSize =>
      rw [hhead, Length.total?] at hsize
      obtain ⟨tailSize, htail, rfl⟩ := Option.map_eq_some_iff.mp hsize
      obtain ⟨front, hfront, hfrontLen⟩ := h.1.sized headSize hhead a
      obtain ⟨back, hback, hbackLen⟩ := ih h.2 htail as
      refine ⟨front ++ back, ?_, by rw [List.length_append, hfrontLen, hbackLen]⟩
      have hwritten : (head.fieldEncoding a).written w (true && (tail.fieldEncodings as).isEmpty) =
          .ok front := by
        rw [FieldEncoding.written_of_bare (Or.inl (by
          rw [Codec.fieldEncoding, Codec.isSized, hhead]; rfl))]
        exact hfront
      rw [Codecs.fieldEncodings, joinFields, hwritten, hback]
      rfl

/-! ### Sequences and dynamic records -/

theorem appends_sequence {w : LengthWidth} {c : Codec α} (h : c.Lawful) (as : List α) :
    Appends (appendSequence w c as) (joinFields w false (as.map c.fieldEncoding)) := by
  induction as with
  | nil => exact Appends.pure
  | cons a as ih => exact (Writer.appends_written h a false).bind ih

theorem Tuple.encodeFields_ne_crash {fields : Codecs τ} (h : fields.Lawful) (as : τ) :
    encodeFields fields as ≠ crash := by
  induction fields with
  | nil => exact Outcome.ok_ne_crash []
  | cons head tail ih =>
    obtain ⟨a, as⟩ := as
    exact Outcome.bind_ne_crash (h.1.ne_crash a) fun field =>
      Outcome.bind_ne_crash (ih h.2 as) fun fields => Outcome.ok_ne_crash _

theorem LengthWidth.lengthBytes_ne_crash (w : LengthWidth) (len : Nat) :
    w.lengthBytes len ≠ crash := by
  rw [lengthBytes]
  split
  · exact Outcome.ok_ne_crash _
  · exact Outcome.refuse_ne_crash _

theorem Writer.headerBytes_ne_crash (w : LengthWidth) (lens : List Nat) :
    headerBytes w lens ≠ crash := by
  induction lens with
  | nil => exact Outcome.ok_ne_crash []
  | cons len lens ih =>
    exact Outcome.bind_ne_crash (w.lengthBytes_ne_crash len) fun length =>
      Outcome.bind_ne_crash ih fun header => Outcome.ok_ne_crash _

/-- What a dynamic record appends, given the encodings of its fields. -/
def dynamicBytes (w : LengthWidth) (fields : List Bytes) : Outcome Bytes := do
  let header ← Writer.headerBytes w (fields.dropLast.map List.length)
  return header ++ fields.flatten

theorem appends_dynamicForm (f : DynamicForm α) (w : LengthWidth) (a : α) :
    Appends (f.append w a) (f.encodeFields a >>= dynamicBytes w) :=
  Appends.lift_bind fun fields => Writer.appends_dynamic w fields

theorem dynamicBytes_ne_crash (w : LengthWidth) (fields : List Bytes) :
    dynamicBytes w fields ≠ crash :=
  Outcome.bind_ne_crash (Writer.headerBytes_ne_crash w _) fun _ => Outcome.ok_ne_crash _

/-! ### What composites encode to

The contracts, with the buffer left out. -/

theorem encode_listCodec {c : FixedCodec α} (h : c.Lawful) (as : List α) :
    (listCodec c).encode as = .ok (as.flatMap c.image) :=
  Appends.encode_eq (appends_ok (h.appendAll_eq as))

theorem encode_sequenceCodec {c : Codec α} (h : c.Lawful) (w : LengthWidth) (as : List α) :
    (sequenceCodec w c).encode as = joinFields w false (as.map c.fieldEncoding) :=
  (appends_sequence h as).encode_eq

theorem DynamicForm.encode_eq (f : DynamicForm α) (w : LengthWidth) (a : α) :
    f.encode w a = f.encodeFields a >>= dynamicBytes w :=
  (appends_dynamicForm f w a).appended_eq

namespace Tuple

/-- Storing in room for a packed record and appending it give the same bytes. -/
theorem encode_packed_codec {fields : FixedCodecs τ} (h : fields.Lawful) (as : τ) :
    (packed fields).codec.encode as = (packed fields).encode as :=
  ((appends_packed h as).encode_eq).trans (encode_packed h as).symm

theorem encode_hybrid {head : FixedCodecs τ} {last : Codec β} (hhead : head.Lawful)
    (hlast : last.Lawful) (as : τ) (b : β) :
    (hybrid head last).encode (as, b) =
      (do let back ← last.encode b; return head.image as ++ back) :=
  (appends_hybrid hhead hlast as b).appended_eq

theorem encode_mixed {fields : Codecs τ} (h : fields.Lawful) (w : LengthWidth) (as : τ) :
    (mixed fields).encode w as = joinFields w true (fields.fieldEncodings as) :=
  (appends_writeMixed h as).appended_eq

end Tuple

/-! ### The same form for another type

Converting what was read before or after the check that nothing is left makes no difference, so the
codec of a converted form is the converted codec. Laws are stated for tuples and carried over. -/

theorem Reader.decodeWith_map (read : Step View β) (f : β → α) (bytes : Bytes) :
    decodeWith (do return f (← read)) bytes = (decodeWith read bytes).map f := by
  rw [decodeWith, decodeWith, Step.bind_apply]
  rcases read (View.ofBytes bytes) with ⟨fault | b, v⟩
  · rfl
  · show (finish v).map (fun _ => f b) = ((finish v).map fun _ => b).map f
    cases finish v <;> rfl

theorem PackedForm.codec_imap (f : PackedForm β) (iso : Iso α β) :
    (f.imap iso).codec = f.codec.imap iso := by
  have hdecode : (f.imap iso).decode = fun bytes => (f.decode bytes).map iso.back := by
    funext bytes
    rw [decode, decode, show (f.imap iso).totalSize = f.totalSize from rfl]
    split
    · exact Reader.decodeWith_map f.read iso.back bytes
    · rfl
  rw [codec, hdecode]
  rfl

theorem HybridForm.codec_imap (f : HybridForm β) (iso : Iso α β) (size? : Option Nat) :
    (f.imap iso).codec size? = (f.codec size?).imap iso := by
  have hdecode : (f.imap iso).decode = fun bytes => (f.decode bytes).map iso.back :=
    funext (Reader.decodeWith_map f.read iso.back)
  rw [codec, hdecode]
  rfl

theorem DynamicForm.codec_imap (f : DynamicForm β) (iso : Iso α β) (w : LengthWidth) :
    (f.imap iso).codec w = (f.codec w).imap iso := by
  have hdecode : (f.imap iso).decode w = fun bytes => (f.decode w bytes).map iso.back := by
    funext bytes
    rw [decode, decode, ← Reader.decodeWith_map, bind_assoc]
    rfl
  rw [codec, hdecode]
  rfl

theorem MixedForm.codec_imap (f : MixedForm β) (iso : Iso α β) (w : LengthWidth)
    (size? : Option Nat) : (f.imap iso).codec w size? = (f.codec w size?).imap iso := by
  have hdecode : (f.imap iso).decode w = fun bytes => (f.decode w bytes).map iso.back :=
    funext (Reader.decodeWith_map (f.read w) iso.back)
  rw [codec, hdecode]
  rfl

/-! ### Lawful codecs from lawful codecs -/

namespace Codec.Lawful

variable {c : Codec β}

theorem imap (h : c.Lawful) (iso : Iso α β) : (c.imap iso).Lawful where
  appends a := h.appends (iso.forth a)
  sized size hsize a := h.sized size hsize (iso.forth a)
  ne_crash a := h.ne_crash (iso.forth a)

theorem via (h : c.Lawful) (toBase : α → β) (ofBase : β → Outcome α) :
    (c.via toBase ofBase).Lawful where
  appends a := h.appends (toBase a)
  sized size hsize a := h.sized size hsize (toBase a)
  ne_crash a := h.ne_crash (toBase a)

end Codec.Lawful

/-- A codec of unknown size only has to keep the contract. -/
theorem Codec.lawful_of_unsized {c : Codec α} {o : α → Outcome Bytes} (hsize : c.size? = none)
    (happends : ∀ a, Appends (c.append a) (o a)) (hcrash : ∀ a, o a ≠ crash) : c.Lawful := by
  refine Codec.lawful_of_appends happends ?_ hcrash
  intro size h
  rw [hsize] at h
  cases h

theorem listCodec_lawful {c : FixedCodec α} (h : c.Lawful) : (listCodec c).Lawful :=
  Codec.lawful_of_unsized rfl (fun as => appends_ok (h.appendAll_eq as)) fun _ =>
    Outcome.ok_ne_crash _

theorem sequenceCodec_lawful {c : Codec α} (h : c.Lawful) (w : LengthWidth) :
    (sequenceCodec w c).Lawful := by
  refine Codec.lawful_of_unsized rfl (appends_sequence h) fun as => joinFields_ne_crash ?_
  intro field hfield
  obtain ⟨a, -, rfl⟩ := List.mem_map.mp hfield
  exact h.ne_crash a

theorem Tuple.dynamic_codec_lawful {fields : Codecs τ} (h : fields.Lawful) (w : LengthWidth) :
    ((Tuple.dynamic fields).codec w).Lawful :=
  Codec.lawful_of_unsized rfl (appends_dynamicForm _ w) fun as =>
    Outcome.bind_ne_crash (encodeFields_ne_crash h as) (dynamicBytes_ne_crash w)

theorem Tuple.mixed_codec_lawful {fields : Codecs τ} (h : fields.Lawful) (w : LengthWidth) :
    ((Tuple.mixed fields).codec w (Length.total? fields.sizes)).Lawful :=
  Codec.lawful_of_appends (appends_writeMixed h) (fun _ => joinFields_of_total? h) fun as =>
    joinFields_ne_crash (Codecs.ne_crash_of_mem h as)

/-- The size of a hybrid record is known when that of its last field is. -/
theorem Tuple.hybrid_codec_lawful {head : FixedCodecs τ} {last : Codec β} (hhead : head.Lawful)
    (hlast : last.Lawful) :
    ((Tuple.hybrid head last).codec (Length.total? (head.sizes ++ [last.size?]))).Lawful := by
  have happends : ∀ values : τ × β, Appends ((hybrid head last).write values)
      (do let back ← last.encode values.2; return head.image values.1 ++ back) :=
    fun values => appends_hybrid hhead hlast values.1 values.2
  refine Codec.lawful_of_appends happends ?_ ?_
  · rintro size hsize ⟨as, b⟩
    have hsize : Length.total? (head.sizes ++ [last.size?]) = some size := hsize
    rw [FixedCodecs.total?_sizes_append hhead] at hsize
    obtain ⟨lastSize, hlastSize, rfl⟩ := Option.map_eq_some_iff.mp hsize
    obtain ⟨bytes, hbytes, hlen⟩ := hlast.sized lastSize hlastSize b
    refine ⟨head.image as ++ bytes, by rw [hbytes]; rfl, ?_⟩
    rw [List.length_append, FixedCodecs.length_image hhead, hlen]
  · rintro ⟨as, b⟩
    exact Outcome.bind_ne_crash (hlast.ne_crash b) fun _ => Outcome.ok_ne_crash _

end WireForm
