import WireForm.Proofs.SafeReading

/-!
# Sizes that are known beforehand

A codec that promises a size promises it of what it writes and of what it reads: every value is
encoded, to that many bytes, and a byte string of any other length is refused. Composites decide
from this promise whether to record a length, so each of them has to keep it, however the promise
came about: a record adds up the sizes of its fields, a vector multiplies, and the other shapes hand
on what they were given.

The sum is formed in two ways. Records form it in machine words, and the laws speak of natural
numbers; they agree as long as the words do not overflow, which is checked before a record is ever
used.

Where the size can be written in place there are three ways to write, and they agree on the bytes.

## Main definitions

* `Codec.KeepsSize` — nothing is decoded from a byte string of another length
* `FixedCodec.Writes` — all ways of writing a value give these bytes

## Main results

* `Shape.keepsSize` — a promised size is the length of everything that is decoded
* `Length.sum_eq_ok` — the two sums
* `static_size_truthful` — the promise in both directions, the ways of writing, and the sums
-/

namespace WireForm

variable {α β τ : Type}

/-- What the codec decodes has the size that it promises. -/
def Codec.KeepsSize (c : Codec α) : Prop :=
  ∀ size, c.size? = some size → ∀ bytes a, c.decode bytes = .ok a → bytes.length = size

theorem Codec.keepsSize_of_unsized {c : Codec α} (h : c.size? = none) : c.KeepsSize := by
  intro size hsize
  rw [h] at hsize
  cases hsize

theorem Codec.KeepsSize.imap {c : Codec β} (h : c.KeepsSize) (iso : Iso α β) :
    (c.imap iso).KeepsSize := by
  intro size hsize bytes a hdec
  obtain ⟨b, hb, -⟩ := Outcome.map_eq_ok.mp hdec
  exact h size hsize bytes b hb

theorem Codec.KeepsSize.via {c : Codec β} (h : c.KeepsSize) (toBase : α → β)
    (ofBase : β → Outcome α) : (c.via toBase ofBase).KeepsSize := by
  intro size hsize bytes a hdec
  obtain ⟨b, hb, -⟩ := Outcome.bind_eq_ok.mp hdec
  exact h size hsize bytes b hb

/-! ### Fixed size -/

/-- A value's image is as long as promised, and nothing else is decoded to the value. -/
theorem FixedCodec.Exact.keepsSize {c : FixedCodec α} (h : c.Exact) (hc : c.Lawful) :
    c.KeepsSize := by
  intro size hsize bytes a hdec
  rw [hc.size?_eq] at hsize
  rw [(h bytes a).mp hdec, hc.length_image, Option.some.inj hsize]

theorem vectorCodec_keepsSize (c : FixedCodec α) (n : Nat) : (vectorCodec c n).KeepsSize := by
  intro size hsize bytes values hdec
  have hdec : decodeVector c n bytes = .ok values := hdec
  rw [decodeVector_eq] at hdec
  obtain ⟨u, hlen, -⟩ := Outcome.bind_eq_ok.mp hdec
  rw [expectLength_eq_ok.mp hlen, ← Option.some.inj hsize]

theorem PackedForm.codec_keepsSize (f : PackedForm α) : f.codec.KeepsSize := by
  intro size hsize bytes a hdec
  have hdec : f.decode bytes = .ok a := hdec
  rw [decode] at hdec
  split at hdec
  · rename_i hlen
    rw [hlen, ← Option.some.inj hsize]
  · cases hdec

theorem FixedShape.keepsSize {α : Type} (s : FixedShape α) : s.codec.KeepsSize := by
  cases s with
  | byte => exact byteCodec_exact.keepsSize byteCodec_lawful
  | integer kind => exact kind.codec_exact.keepsSize kind.codec_lawful
  | bool => exact boolCodec_exact.keepsSize boolCodec_lawful
  | char => exact charCodec_exact.keepsSize charCodec_lawful
  | binary32 => exact Binary32.codec_exact.keepsSize Binary32.codec_lawful
  | binary64 => exact Binary64.codec_exact.keepsSize Binary64.codec_lawful
  | vector elem n => exact vectorCodec_keepsSize elem.codec n
  | enumeration e => exact e.codec_exact.keepsSize e.codec_lawful
  | packed fields iso =>
    exact PackedForm.codec_keepsSize ((Tuple.packed fields.codecs).imap iso)
  | transparent inner iso => exact inner.keepsSize.imap iso
  | via base toBase ofBase => exact base.keepsSize.via toBase ofBase

/-! ### Sums of sizes -/

namespace Length

theorem sumFrom_eq_ok {total : Nat} {sizes : List (Option Nat)} {size? : Option Nat}
    (h : sumFrom total sizes = .ok size?) : size? = (total? sizes).map (total + ·) := by
  induction sizes generalizing total with
  | nil => exact (Except.ok.inj h).symm
  | cons size sizes ih =>
    cases size with
    | none => exact (Except.ok.inj h).symm
    | some size =>
      rw [sumFrom] at h
      split at h
      · rename_i next hnext
        obtain ⟨-, rfl⟩ := add_eq_ok.mp hnext
        rw [ih h, total?, Option.map_map]
        congr 1
        funext rest
        exact Nat.add_assoc total size rest
      · cases h

/-- The sum in machine words, where there is one, is the sum. -/
theorem sum_eq_ok {sizes : List (Option Nat)} {size? : Option Nat} (h : sum sizes = .ok size?) :
    size? = total? sizes := by
  rw [sumFrom_eq_ok h]
  cases total? sizes <;> simp

end Length

theorem FixedCodecs.total?_sizes {fields : FixedCodecs τ} (h : fields.Lawful) :
    Length.total? fields.sizes = some fields.totalSize := by
  induction fields with
  | nil => rfl
  | cons head tail ih => rw [sizes, h.1.size?_eq, Length.total?, ih h.2, totalSize]; rfl

/-! ### Any size -/

theorem FixedCodecs.ReadFrom.length_eq {fields : FixedCodecs τ} {front : Bytes} {as : τ}
    (h : fields.ReadFrom front as) : front.length = fields.totalSize := by
  induction fields generalizing front with
  | nil => rw [show front = [] from h]; rfl
  | cons head tail ih =>
    obtain ⟨a, as⟩ := as
    obtain ⟨first, second, rfl, ⟨hfirst, -⟩, hsecond⟩ := h
    rw [List.length_append, hfirst, ih hsecond, totalSize]

/-- Where all fields of a mixed record are sized, each takes its size and none its length. -/
theorem Codecs.MixedFrom.length_eq {w : LengthWidth} {fields : Codecs τ} {front rest : Bytes}
    {as : τ} {size : Nat} (hsize : Length.total? fields.sizes = some size)
    (h : fields.MixedFrom w front rest as) : front.length = size := by
  induction fields generalizing front size with
  | nil => rw [show front = [] from h, ← Option.some.inj hsize]; rfl
  | cons head tail ih =>
    obtain ⟨a, as⟩ := as
    obtain ⟨first, second, rfl, ⟨own, hstands, -⟩, hsecond⟩ := h
    rw [sizes] at hsize
    cases hhead : head.size? with
    | none =>
      rw [hhead] at hsize
      cases hsize
    | some headSize =>
      rw [hhead, Length.total?] at hsize
      obtain ⟨tailSize, htail, rfl⟩ := Option.map_eq_some_iff.mp hsize
      obtain ⟨hown, rfl⟩ := (Codec.standsAs_sized hhead).mp hstands
      rw [List.length_append, hown, ih htail hsecond]

theorem Tuple.hybrid_keepsSize {head : FixedCodecs τ} {last : Codec β} (hhead : head.Lawful)
    (hlast : last.KeepsSize) :
    ((Tuple.hybrid head last).codec (Length.total? (head.sizes ++ [last.size?]))).KeepsSize := by
  rintro size hsize bytes ⟨as, b⟩ hdec
  have hsize : Length.total? (head.sizes ++ [last.size?]) = some size := hsize
  rw [FixedCodecs.total?_sizes_append hhead] at hsize
  obtain ⟨lastSize, hlastSize, rfl⟩ := Option.map_eq_some_iff.mp hsize
  obtain ⟨first, second, rfl, hfirst, -, hsecond⟩ := (reads_hybrid head last).decodeWith_sound hdec
  rw [List.length_append, hfirst.length_eq, hlast lastSize hlastSize second b hsecond]

theorem Tuple.mixed_keepsSize (fields : Codecs τ) (w : LengthWidth) :
    ((Tuple.mixed fields).codec w (Length.total? fields.sizes)).KeepsSize := fun _ hsize _ _ hdec =>
  Codecs.MixedFrom.length_eq hsize ((reads_readMixed w fields).decodeWith_sound hdec)

theorem Shape.keepsSize {α : Type} (s : Shape α) : s.codec.KeepsSize := by
  cases s with
  | fixed shape => exact shape.keepsSize
  | text => exact Codec.keepsSize_of_unsized rfl
  | natural => exact Codec.keepsSize_of_unsized rfl
  | integer => exact Codec.keepsSize_of_unsized rfl
  | list elem => exact Codec.keepsSize_of_unsized rfl
  | sequence width elem => exact Codec.keepsSize_of_unsized rfl
  | hybrid head last iso =>
    rw [Shape.codec, HybridForm.codec_imap]
    exact (Tuple.hybrid_keepsSize head.lawful last.keepsSize).imap iso
  | dynamic width fields iso => exact Codec.keepsSize_of_unsized rfl
  | mixed width fields iso =>
    rw [Shape.codec, Record.mixed_eq_tuple, MixedForm.codec_imap]
    exact (Tuple.mixed_keepsSize fields.codecs width).imap iso
  | transparent inner iso => exact inner.keepsSize.imap iso
  | via base toBase ofBase => exact base.keepsSize.via toBase ofBase

/-- A byte string of another length than the promised one is not decoded, and when conversions do
not crash it is refused. -/
theorem Shape.refuses_other_lengths {s : Shape α} {size : Nat} (hsize : s.codec.size? = some size)
    {bytes : Bytes} (hlen : bytes.length ≠ size) :
    ∃ fault, s.codec.decode bytes = .error fault ∧
      (s.ConvertsSafely → bytes.length < wordLimit → ∃ error, fault = .refused error) := by
  cases hdec : s.codec.decode bytes with
  | ok a => exact absurd (s.keepsSize size hsize bytes a hdec) hlen
  | error fault =>
    refine ⟨fault, rfl, fun hsafe hfits => ?_⟩
    cases fault with
    | refused error => exact ⟨error, rfl⟩
    | crash => exact absurd hdec (s.safe hsafe bytes hfits)

/-! ### Writing in place -/

/-- All ways of writing `a` give `bytes`: appending, appending what was stored, storing in a slice
of the right length, and storing with that length checked. -/
structure FixedCodec.Writes (c : FixedCodec α) (a : α) (bytes : Bytes) : Prop where
  /-- There are as many bytes as promised. -/
  length_eq : bytes.length = c.size
  /-- Appending adds them to any buffer. -/
  append_eq : ∀ out, c.append a out = (.ok (), out ++ bytes)
  /-- So does appending through the store. -/
  appendFixed_eq : ∀ out, c.appendFixed a out = (.ok (), out ++ bytes)
  /-- Storing overwrites the whole slice, whatever it held. -/
  store_eq : ∀ dst, dst.length = c.size → c.store a dst = .ok bytes
  /-- So does storing with a check. -/
  storeExact_eq : ∀ dst, dst.length = c.size → c.storeExact a dst = .ok bytes

theorem FixedCodec.Lawful.writes {c : FixedCodec α} (h : c.Lawful) (a : α) :
    c.Writes a (c.image a) where
  length_eq := h.length_image a
  append_eq := h.append_eq a
  appendFixed_eq := h.appendFixed_eq a
  store_eq := h.store_eq a
  storeExact_eq dst hlen := by rw [storeExact, if_pos hlen, h.store_eq a dst hlen]

/-! ### All shapes -/

/-- **A promised size is kept.** Every value of a shape with a size is encoded to that many bytes,
and no byte string of another length is decoded. A shape that can be written in place promises its
size, and all ways of writing agree on the bytes. The size of a record is the sum of the sizes of
its fields, which is what adding them up in machine words gives. -/
theorem static_size_truthful :
    (∀ {α : Type} (s : Shape α) (size : Nat), s.codec.size? = some size →
      (∀ a, ∃ bytes, s.codec.encode a = .ok bytes ∧ bytes.length = size) ∧
      ∀ bytes, bytes.length ≠ size → ∃ fault, s.codec.decode bytes = .error fault ∧
        (s.ConvertsSafely → bytes.length < wordLimit → ∃ error, fault = .refused error)) ∧
    (∀ {α : Type} (s : FixedShape α), s.codec.size? = some s.codec.size ∧
      ∀ a, ∃ bytes, s.codec.encode a = .ok bytes ∧ s.codec.Writes a bytes) ∧
    (∀ {α τ : Type} (fields : FixedShapes τ) (iso : Iso α τ),
      Length.total? fields.codecs.sizes = some (FixedShape.packed fields iso).codec.size) ∧
    (∀ {α σ β : Type} (head : FixedShapes σ) (last : Shape β) (iso : Iso α (σ × β))
      (size? : Option Nat), Length.sum (head.codecs.sizes ++ [last.codec.size?]) = .ok size? →
      (Shape.hybrid head last iso).codec.size? = size?) ∧
    (∀ {α τ : Type} (w : LengthWidth) (fields : Shapes τ) (iso : Iso α τ) (size? : Option Nat),
      Length.sum fields.codecs.sizes = .ok size? →
      (Shape.mixed w fields iso).codec.size? = size?) := by
  refine ⟨fun s size hsize => ⟨s.lawful.sized size hsize, fun bytes => ?_⟩,
    fun s => ⟨s.lawful.size?_eq, fun a => ?_⟩, fun fields iso => ?_,
    fun head last iso size? hsum => ?_, fun w fields iso size? hsum => ?_⟩
  · exact Shape.refuses_other_lengths hsize
  · exact ⟨s.codec.image a, s.lawful.encode_eq a, s.lawful.writes a⟩
  · exact FixedCodecs.total?_sizes fields.lawful
  · exact (Length.sum_eq_ok hsum).symm
  · exact (Length.sum_eq_ok hsum).symm

/-- A mixed record of a byte and a number of four bytes: its size is five, and of three bytes
nothing is decoded. -/
theorem static_size_truthful_at_header :
    Register.Header.shape.codec.size? = some 5 ∧
    (∀ header, ∃ bytes,
      Register.Header.shape.codec.encode header = .ok bytes ∧ bytes.length = 5) ∧
    ∃ error, Register.Header.shape.codec.decode [1, 2, 3] = refuse error := by
  obtain ⟨hshapes, -, -, -, hmixed⟩ := static_size_truthful
  have hsize : Register.Header.shape.codec.size? = some 5 :=
    hmixed .standard (.cons (.fixed .byte) (.cons (.fixed Register.u32) .nil)) Register.Header.iso
      (some 5) (by decide)
  obtain ⟨hencode, hdecode⟩ := hshapes Register.Header.shape 5 hsize
  obtain ⟨fault, hfault, hrefused⟩ := hdecode [1, 2, 3] (by decide)
  obtain ⟨error, rfl⟩ := hrefused ⟨trivial, trivial, trivial⟩ (by decide)
  exact ⟨hsize, hencode, error, hfault⟩

end WireForm
