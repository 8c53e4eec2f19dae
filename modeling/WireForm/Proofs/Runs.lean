import WireForm.Proofs.DynamicHeader
import WireForm.Proofs.RoundTrip

/-!
# Runs of values of one size

Values of a fixed size are put next to each other in four places: in a list, in a vector, in a
sequence that is written on its own and in one that is part of a record. Each place has a loop of
its own, and some have shortcuts: a list of bytes is copied as a whole, a vector of values of no
bytes writes nothing and reads each of them from nothing, and a sequence takes its values off a
window one at a time after a check that they fill it. Here all loops are compared with one
reference, `decodeChunks`, on every byte string, so what they refuse and how is compared as well.

A run is refused in two ways. Bytes that are no whole number of encodings are refused at once, and
otherwise the first encoding that stands for no value decides. `RunFails` says so.

Values of no bytes are where the loops have to differ. A list or a sequence of them cannot be
counted and is read as empty, while the number of values in a vector is known.

## Main definitions

* `RunFails` — how decoding a run fails
* `FixedShape.ConvertsAll` — all conversions of a shape give a value
* `FixedShape.RunsAgree` — lists, sequences and vectors agree

## Main results

* `decodeChunks_eq_error` — which fault a run is refused with
* `FixedCodec.Lawful.decodeSequence_eq`, `FixedCodec.Lawful.map_decodeVector` — sequences and
  vectors are read like lists
* `FixedShape.exists_decode_nil` — a value of no bytes is read from nothing
* `fixed_runs_agree` — all of it, for every shape of a fixed size
-/

namespace WireForm

variable {α : Type}

/-! ### The reference -/

/-- How a run of encodings of `size` bytes each fails to be decoded. -/
inductive RunFails (size : Nat) (decode : Bytes → Outcome α) (bytes : Bytes) : Fault → Prop where
  /-- There are bytes, but they are no whole number of encodings. -/
  | misaligned (hne : bytes ≠ []) (h : size = 0 ∨ bytes.length % size ≠ 0) :
    RunFails size decode bytes (.refused (.misaligned size bytes.length))
  /-- An encoding stands for no value, and all encodings in front of it do. -/
  | element (before : List Bytes) (bad : Bytes) (after : List Bytes) {fault : Fault}
    (hpos : 0 < size) (hbytes : bytes = (before ++ bad :: after).flatten)
    (hsize : ∀ chunk ∈ before ++ bad :: after, chunk.length = size)
    (hbefore : ∀ chunk ∈ before, ∃ a, decode chunk = .ok a) (hbad : decode bad = .error fault) :
    RunFails size decode bytes fault

section Chunks

variable {size : Nat} {decode : Bytes → Outcome α} {bytes : Bytes}

theorem decodeChunks_nil (size : Nat) (decode : Bytes → Outcome α) :
    decodeChunks size decode [] = .ok [] := by
  rcases Nat.eq_zero_or_pos size with rfl | hpos
  · exact decodeChunks_zero.mpr ⟨rfl, rfl⟩
  · show decodeChunks size decode ([] : List Bytes).flatten = _
    exact decodeChunks_flatten hpos decode (by simp)

/-- Bytes that are no whole number of encodings, and no bytes at all where encodings have none. -/
theorem isRagged_eq_true (h : size = 0 ∨ bytes.length % size ≠ 0) :
    isRagged size bytes = .ok true := by
  rcases Nat.eq_zero_or_pos size with rfl | hpos
  · rfl
  · have hmod : bytes.length % size ≠ 0 := h.resolve_left (by omega)
    rw [isRagged_of_pos hpos]
    simp [hmod]

theorem decodeChunks_misaligned (hne : bytes ≠ []) (h : size = 0 ∨ bytes.length % size ≠ 0) :
    decodeChunks size decode bytes = refuse (.misaligned size bytes.length) := by
  rw [decodeChunks, isRagged_eq_true h]
  simp [hne]

/-- Bytes are no whole number of encodings, or put together from chunks. -/
theorem run_cases (size : Nat) (bytes : Bytes) :
    (size = 0 ∨ bytes.length % size ≠ 0) ∨
      (0 < size ∧ ∃ bs : List Bytes, bytes = bs.flatten ∧ ∀ b ∈ bs, b.length = size) := by
  by_cases hragged : size = 0 ∨ bytes.length % size ≠ 0
  · exact Or.inl hragged
  · obtain ⟨hzero, hmod⟩ := not_or.mp hragged
    have hwhole : bytes.length = size * (bytes.length / size) :=
      (Nat.mul_div_cancel' (Nat.dvd_of_mod_eq_zero (not_not.mp hmod))).symm
    exact Or.inr ⟨Nat.pos_of_ne_zero hzero, exists_flatten_eq _ bytes hwhole⟩

/-- **A run is refused as a whole, or for its first encoding that stands for no value.** -/
theorem decodeChunks_eq_error {fault : Fault} :
    decodeChunks size decode bytes = .error fault ↔ RunFails size decode bytes fault := by
  constructor
  · intro h
    have hne : bytes ≠ [] := by
      rintro rfl
      rw [decodeChunks_nil] at h
      cases h
    rcases run_cases size bytes with hragged | ⟨hpos, bs, rfl, hbs⟩
    · rw [decodeChunks_misaligned hne hragged] at h
      rw [← Except.error.inj h]
      exact .misaligned hne hragged
    · rw [decodeChunks_flatten hpos decode hbs] at h
      obtain ⟨before, bad, after, rfl, hbefore, hbad⟩ := Outcome.mapM_eq_error.mp h
      exact .element before bad after hpos rfl hbs hbefore hbad
  · rintro (⟨hne, hragged⟩ | ⟨before, bad, after, hpos, rfl, hsize, hbefore, hbad⟩)
    · exact decodeChunks_misaligned hne hragged
    · rw [decodeChunks_flatten hpos decode hsize]
      exact Outcome.mapM_eq_error.mpr ⟨before, bad, after, rfl, hbefore, hbad⟩

end Chunks

/-! ### Sequences -/

/-- Taking a field off the front of a window and decoding it. What it is decoded to, or refused
with, depends on its own bytes only. -/
theorem Reader.sized_eq (c : Codec α) {v : View} (hv : v.Fits) {part rest : Bytes}
    (h : v.bytes = part ++ rest) :
    ∃ v', sized c part.length v = (c.decode part, v') ∧ v'.Fits ∧ v'.bytes = rest := by
  obtain ⟨v', htake, hv', hrest⟩ := View.take_of_bytes_eq hv h
  exact ⟨v', Step.bind_of_ok htake, hv', hrest⟩

section Items

variable {c : Codec α} {w : LengthWidth} {size : Nat}

/-- Taking chunks off a window one after the other is decoding them one after the other, up to the
first that stands for no value. -/
theorem itemsFrom_flatten (hsize : c.size? = some size) (hpos : 0 < size) {bs : List Bytes}
    (hbs : ∀ b ∈ bs, b.length = size) {fuel : Nat} (hfuel : bs.length ≤ fuel) {v : View}
    (hv : v.Fits) (hbytes : v.bytes = bs.flatten) (done : List α) :
    itemsFrom (Reader.field w c false) fuel v done =
      (bs.mapM c.decode).map (done.reverse ++ ·) := by
  induction bs generalizing fuel v done with
  | nil =>
    rw [itemsFrom_of_empty hbytes, List.mapM_nil]
    exact congrArg Except.ok (List.append_nil _).symm
  | cons b bs ih =>
    obtain ⟨hb, hbs⟩ := List.forall_mem_cons.mp hbs
    have hread : Reader.field w c false = Reader.sized c b.length := by
      rw [Reader.field, hsize, hb]
    have hne : v.bytes ≠ [] := by
      have hb' : b ≠ [] := List.ne_nil_of_length_pos (by omega)
      rw [hbytes, List.flatten_cons]
      exact List.append_ne_nil_of_left_ne_nil hb' _
    obtain ⟨v', hsized, hv', hrest⟩ := Reader.sized_eq c hv hbytes
    rw [← hread] at hsized
    cases fuel with
    | zero => simp at hfuel
    | succ fuel =>
      have hfuel : bs.length ≤ fuel := by
        rw [List.length_cons] at hfuel
        omega
      rw [List.mapM_cons]
      cases hdecode : c.decode b with
      | error fault =>
        rw [hdecode] at hsized
        rw [itemsFrom, if_neg (mt View.isEmpty_iff.mp hne)]
        simp only [hsized]
        rfl
      | ok a =>
        rw [hdecode] at hsized
        rw [itemsFrom_succ hne hsized, ih hbs hfuel hv' hrest]
        cases bs.mapM c.decode with
        | error fault => rfl
        | ok as => simp [Except.map]

theorem decodeItems_flatten (hsize : c.size? = some size) (hpos : 0 < size) {bs : List Bytes}
    (hbs : ∀ b ∈ bs, b.length = size) (hlen : bs.flatten.length < wordLimit) :
    decodeItems w c bs.flatten = bs.mapM c.decode := by
  have hfuel : bs.length ≤ bs.flatten.length := by
    rw [length_flatten_of_forall hbs]
    exact Nat.le_mul_of_pos_left _ hpos
  rw [decodeItems, itemsFrom_flatten hsize hpos hbs hfuel (View.fits_ofBytes hlen) rfl]
  cases bs.mapM c.decode <;> rfl

/-- The check in front of the loop is that of a run. -/
theorem decodeSequence_misaligned (hsize : c.size? = some size) {bytes : Bytes} (hne : bytes ≠ [])
    (h : size = 0 ∨ bytes.length % size ≠ 0) :
    decodeSequence w c bytes = refuse (.misaligned size bytes.length) := by
  have hempty : ¬bytes.isEmpty = true := fun hempty => hne (List.isEmpty_iff.mp hempty)
  rw [decodeSequence, hsize]
  simp only [if_neg hempty, isRagged_eq_true h]
  rfl

/-- Bytes that pass the check are read chunk by chunk. -/
theorem decodeSequence_flatten (hsize : c.size? = some size) (hpos : 0 < size) {bs : List Bytes}
    (hbs : ∀ b ∈ bs, b.length = size) (hlen : bs.flatten.length < wordLimit) :
    decodeSequence w c bs.flatten = bs.mapM c.decode := by
  have hragged : isRagged size bs.flatten = .ok false := by
    rw [isRagged_of_pos hpos, length_flatten_of_forall hbs, Nat.mul_mod_right]
    rfl
  have hitems : decodeItems w c bs.flatten = bs.mapM c.decode :=
    decodeItems_flatten hsize hpos hbs hlen
  rw [decodeSequence, hsize, ← hitems]
  simp only [hragged]
  by_cases hempty : bs.flatten.isEmpty = true
  · have hnil : bs.flatten = [] := List.isEmpty_iff.mp hempty
    have hloop : decodeItems w c bs.flatten = .ok [] := itemsFrom_of_empty hnil
    rw [if_pos hempty, hloop]
  · rw [if_neg hempty]
    rfl

end Items

namespace FixedCodec.Lawful

variable {c : FixedCodec α} {w : LengthWidth} {bytes : Bytes}

/-- **A sequence of values of a fixed size is read like a run of them**, also where it is
refused. -/
theorem decodeSequence_eq (h : c.Lawful) (hlen : bytes.length < wordLimit) :
    decodeSequence w c.toCodec bytes = decodeChunks c.size c.decode bytes := by
  by_cases hne : bytes = []
  · rw [hne, decodeChunks_nil, decodeSequence, h.size?_eq]
    rfl
  rcases run_cases c.size bytes with hragged | ⟨hpos, bs, rfl, hbs⟩
  · rw [decodeChunks_misaligned hne hragged, decodeSequence_misaligned h.size?_eq hne hragged]
  · rw [decodeChunks_flatten hpos c.decode hbs]
    exact decodeSequence_flatten h.size?_eq hpos hbs hlen

/-- Values of a fixed size stand in a sequence as they stand in a list. -/
theorem encode_sequence (h : c.Lawful) (as : List α) :
    (sequenceCodec w c.toCodec).encode as = .ok (as.flatMap c.image) := by
  have hfield : ∀ a out, Writer.field w c.toCodec a false out = (.ok (), out ++ c.image a) := by
    intro a out
    have hsized : c.toCodec.isSized = true := by
      rw [Codec.isSized, h.size?_eq]
      rfl
    rw [Writer.field, if_pos (Or.inl hsized)]
    exact h.append_eq a out
  exact Appends.encode_eq (appends_ok (appendEach_eq hfield as))

/-! ### Vectors -/

/-- A vector has a length of its own, and is refused for that before anything is decoded. -/
theorem decodeVector_of_length_ne {n : Nat} (hlen : bytes.length ≠ c.size * n) :
    decodeVector c n bytes = refuse (.invalidLength (c.size * n) bytes.length) := by
  rw [decodeVector_eq, expectLength, if_neg hlen]
  rfl

/-- **A vector of the right number of bytes is read like a list**, which then has as many values as
the vector. -/
theorem map_decodeVector (h : c.Lawful) {n : Nat} (hlen : bytes.length = c.size * n)
    (hpos : 0 < c.size) :
    (decodeVector c n bytes).map Vector.toList = c.decodeAll bytes := by
  rw [decodeVector_eq, expectLength_of_eq hlen, Outcome.ok_bind, if_neg (Nat.ne_of_gt hpos)]
  cases hrun : c.decodeAll bytes with
  | error fault => rfl
  | ok as =>
    obtain ⟨bs, rfl, hbs, has⟩ := (decodeChunks_eq_ok hpos).mp ((h.decodeAll_eq _).symm.trans hrun)
    have hcount : bs.length = n := by
      rw [length_flatten_of_forall hbs] at hlen
      exact Nat.eq_of_mul_eq_mul_left hpos hlen
    have hsize : as.toArray.size = n := by
      rw [List.size_toArray, ← has.length_eq, hcount]
    have hvector : vectorOfList n as = .ok ⟨as.toArray, hsize⟩ := vectorOfList_eq_ok.mpr rfl
    rw [Outcome.ok_bind, hvector]
    rfl

/-- Where values have no bytes, a vector has as many of them as its type says. -/
theorem decodeVector_nil (h : c.Lawful) (hzero : c.size = 0) {a : α} (ha : c.decode [] = .ok a)
    (n : Nat) : decodeVector c n [] = .ok (Vector.replicate n a) := by
  refine h.decodeVector_eq_ok.mpr ⟨List.replicate n [], by simp, by simp [hzero], ?_⟩
  rw [Vector.toList_replicate]
  induction n with
  | zero => exact .nil
  | succ n ih => exact .cons ha ih

end FixedCodec.Lawful

/-! ### Values of no bytes -/

mutual

/-- Conversions from base values always give a value. -/
def FixedShape.ConvertsAll {α : Type} : FixedShape α → Prop
  | .byte => True
  | .integer _ => True
  | .bool => True
  | .char => True
  | .binary32 => True
  | .binary64 => True
  | .vector elem _ => elem.ConvertsAll
  | .enumeration _ => True
  | .packed fields _ => fields.ConvertAll
  | .transparent inner _ => inner.ConvertsAll
  | .via base _ ofBase => base.ConvertsAll ∧ ∀ b, ∃ a, ofBase b = .ok a

/-- The same of all fields. -/
def FixedShapes.ConvertAll {τ : Type} : FixedShapes τ → Prop
  | .nil => True
  | .cons head tail => head.ConvertsAll ∧ tail.ConvertAll

end

theorem IntKind.size_pos (kind : IntKind) : 0 < kind.codec.size := by
  obtain ⟨width, signed⟩ := kind
  cases width <;> exact Nat.zero_lt_succ _

mutual

/-- **A value of no bytes is read from nothing**: such a shape is made of vectors, of records and
of what they are converted to, and nothing in them can be refused. -/
theorem FixedShape.exists_decode_nil {α : Type} : (s : FixedShape α) → s.ConvertsAll →
    s.codec.size = 0 → ∃ a, s.codec.decode [] = .ok a
  | .byte, _, hzero => nomatch hzero
  | .integer kind, _, hzero => absurd hzero (Nat.ne_of_gt kind.size_pos)
  | .bool, _, hzero => nomatch hzero
  | .char, _, hzero => nomatch hzero
  | .binary32, _, hzero => nomatch hzero
  | .binary64, _, hzero => nomatch hzero
  | .vector elem n, h, hzero => by
    have hsize : elem.codec.size * n = 0 := hzero
    rcases Nat.mul_eq_zero.mp hsize with helem | rfl
    · obtain ⟨a, ha⟩ := elem.exists_decode_nil h helem
      exact ⟨_, elem.lawful.decodeVector_nil helem ha n⟩
    · exact ⟨#v[], elem.lawful.decodeVector_eq_ok.mpr ⟨[], rfl, by simp, .nil⟩⟩
  | .enumeration e, _, hzero => absurd hzero (Nat.ne_of_gt e.kind.size_pos)
  | .packed fields iso, h, hzero => by
    obtain ⟨as, has⟩ := fields.exists_readFrom_nil h hzero
    have htotal : ([] : Bytes).length = (Tuple.packed fields.codecs).totalSize := hzero.symm
    have hdecode : (Tuple.packed fields.codecs).decode [] = .ok as := by
      rw [PackedForm.decode, if_pos htotal]
      exact (Tuple.reads_readFixed fields.codecs).decodeWith_complete (by decide) has
    rw [FixedShape.codec, PackedForm.codec_imap]
    exact ⟨iso.back as, congrArg (Except.map iso.back) hdecode⟩
  | .transparent inner iso, h, hzero => by
    obtain ⟨b, hb⟩ := inner.exists_decode_nil h hzero
    exact ⟨iso.back b, congrArg (Except.map iso.back) hb⟩
  | .via base _ ofBase, h, hzero => by
    obtain ⟨b, hb⟩ := base.exists_decode_nil h.1 hzero
    obtain ⟨a, ha⟩ := h.2 b
    exact ⟨a, Outcome.bind_eq_ok.mpr ⟨b, hb, ha⟩⟩

theorem FixedShapes.exists_readFrom_nil {τ : Type} : (fields : FixedShapes τ) → fields.ConvertAll →
    fields.codecs.totalSize = 0 → ∃ as, fields.codecs.ReadFrom [] as
  | .nil, _, _ => ⟨(), rfl⟩
  | .cons head tail, h, hzero => by
    obtain ⟨hhead, htail⟩ := Nat.add_eq_zero_iff.mp hzero
    obtain ⟨a, ha⟩ := head.exists_decode_nil h.1 hhead
    obtain ⟨as, has⟩ := tail.exists_readFrom_nil h.2 htail
    exact ⟨(a, as), [], [], rfl, ⟨hhead.symm, ha⟩, has⟩

end

/-! ### All together -/

/-- Lists, sequences and vectors of the values of a shape agree. A sequence would record lengths in
the width `w`, and records none. -/
structure FixedShape.RunsAgree (s : FixedShape α) (w : LengthWidth) : Prop where
  /-- Lists and sequences are the encodings of their values with nothing between them. -/
  encode : ∀ as : List α,
    (listCodec s.codec).encode as = .ok (as.flatMap s.codec.image) ∧
    appended (appendSequence w s.codec.toCodec as) = .ok (as.flatMap s.codec.image) ∧
    (sequenceCodec w s.codec.toCodec).encode as = .ok (as.flatMap s.codec.image)
  /-- So are vectors. -/
  encode_vector : ∀ {n : Nat} (values : Vector α n),
    (vectorCodec s.codec n).encode values = (listCodec s.codec).encode values.toList
  /-- A sequence is decoded like a list, and refused like one. -/
  decode : ∀ bytes : Bytes, bytes.length < wordLimit →
    decodeSequence w s.codec.toCodec bytes = (listCodec s.codec).decode bytes ∧
    (sequenceCodec w s.codec.toCodec).decode bytes = (listCodec s.codec).decode bytes
  /-- It is refused as a whole or for its first value that is none. -/
  refused : ∀ (bytes : Bytes) (fault : Fault),
    (listCodec s.codec).decode bytes = .error fault ↔
      RunFails s.codec.size s.codec.decode bytes fault
  /-- A vector needs exactly as many bytes as its values take. -/
  vector_refused : ∀ (n : Nat) (bytes : Bytes), bytes.length ≠ s.codec.size * n →
    (vectorCodec s.codec n).decode bytes =
      refuse (.invalidLength (s.codec.size * n) bytes.length)
  /-- From that many it is decoded like a list, or refused like one. -/
  decode_vector : ∀ (n : Nat) (bytes : Bytes), bytes.length = s.codec.size * n →
    0 < s.codec.size →
    ((vectorCodec s.codec n).decode bytes).map Vector.toList = (listCodec s.codec).decode bytes
  /-- Unless these are none: then it has its number of the one value that no bytes stand for. -/
  decode_vector_of_empty : ∀ (n : Nat) (bytes : Bytes), bytes.length = s.codec.size * n →
    s.codec.size = 0 → ∀ a, s.codec.decode [] = .ok a →
    (vectorCodec s.codec n).decode bytes = .ok (Vector.replicate n a)
  /-- There is such a value, if conversions give one. -/
  decode_nil : s.ConvertsAll → s.codec.size = 0 → ∃ a, s.codec.decode [] = .ok a

/-- **All ways to encode and to decode values of one size next to each other agree**, for every
shape of a fixed size, on all values and on all byte strings. -/
theorem fixed_runs_agree (s : FixedShape α) (w : LengthWidth) : s.RunsAgree w where
  encode as := ⟨encode_listCodec s.lawful as, s.lawful.encode_sequence as,
    s.lawful.encode_sequence as⟩
  encode_vector {n} values := by
    rw [(s.lawful.vectorCodec n).encode_eq, s.lawful.image_vectorCodec,
      encode_listCodec s.lawful]
  decode bytes hlen := by
    have hlist : (listCodec s.codec).decode bytes =
        decodeChunks s.codec.size s.codec.decode bytes := s.lawful.decodeAll_eq bytes
    rw [hlist]
    exact ⟨s.lawful.decodeSequence_eq hlen, s.lawful.decodeSequence_eq hlen⟩
  refused bytes fault := by
    rw [← decodeChunks_eq_error, ← s.lawful.decodeAll_eq]
    rfl
  vector_refused _ _ hlen := FixedCodec.Lawful.decodeVector_of_length_ne hlen
  decode_vector _ _ hlen hpos := s.lawful.map_decodeVector hlen hpos
  decode_vector_of_empty n bytes hlen hzero a ha := by
    rw [hzero, Nat.zero_mul, List.length_eq_zero_iff] at hlen
    rw [hlen]
    exact s.lawful.decodeVector_nil hzero ha n
  decode_nil h hzero := s.exists_decode_nil h hzero

/-- Three bytes of which the second and the third are no status are refused for the second, and
two markers are read from nothing. -/
theorem fixed_runs_agree_at_statuses :
    decodeSequence .one (FixedShape.enumeration Register.Status.enumeration).codec.toCodec
        [1, 9, 8] = refuse (.invalidDiscriminant "Status" 9) ∧
    ((vectorCodec (FixedShape.enumeration Register.Status.enumeration).codec 3).decode
        [1, 9, 8]).map Vector.toList = refuse (.invalidDiscriminant "Status" 9) ∧
    (vectorCodec Register.Marker.shape.codec 2).decode [] =
        .ok (Vector.replicate 2 Register.Marker.mk) := by
  have hstatuses := fixed_runs_agree (.enumeration Register.Status.enumeration) .one
  have hbefore : ∀ chunk ∈ [[1]],
      ∃ a, (FixedShape.enumeration Register.Status.enumeration).codec.decode chunk = .ok a := by
    intro chunk hchunk
    rw [List.mem_singleton.mp hchunk]
    exact ⟨.sailing, rfl⟩
  have hrefused := (hstatuses.refused [1, 9, 8] _).mpr
    (.element [[1]] [9] [[8]] (by decide) rfl (by decide) hbefore rfl)
  refine ⟨(hstatuses.decode _ (by decide)).1.trans hrefused,
    (hstatuses.decode_vector 3 _ rfl (by decide)).trans hrefused, ?_⟩
  exact (fixed_runs_agree Register.Marker.shape .one).decode_vector_of_empty 2 [] rfl rfl _ rfl

end WireForm
