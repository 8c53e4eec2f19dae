import WireForm.Proofs.Outcome
import WireForm.Sequence

/-!
# Laws of codecs of a fixed size

A fixed codec writes in three ways: it appends, it overwrites a slice, and it appends a whole run
of values. `FixedCodec.Lawful` says that all three write the same bytes, the *image* of the value,
and that there are as many of them as the codec promises. It says nothing about decoding a single
value; a run of values is decoded chunk by chunk.

Lists and vectors of a lawful codec are dealt with here, since both are runs of images. That their
elements may have no bytes at all is the one thing to watch: such a run cannot be counted.

## Main definitions

* `FixedCodec.image` — the bytes of a value
* `FixedCodec.Lawful` — the laws

## Main results

* `Codec.lawful_fixed` — the laws of a codec whose runs go element by element
* `decodeChunks_eq_ok`, `decodeVector_eq_ok` — what runs of values are decoded from
* `FixedCodec.Lawful.vectorCodec` — vectors of a lawful codec
-/

namespace WireForm

variable {α β : Type}

theorem expectLength_eq_ok {expected : Nat} {bytes : Bytes} {u : Unit} :
    expectLength expected bytes = .ok u ↔ bytes.length = expected := by
  rw [expectLength]
  split <;> simp_all [refuse]

theorem expectLength_of_eq {expected : Nat} {bytes : Bytes} (h : bytes.length = expected) :
    expectLength expected bytes = .ok () :=
  expectLength_eq_ok.mpr h

/-! ### Chunks -/

theorem length_flatten_of_forall {size : Nat} {bs : List Bytes} (h : ∀ b ∈ bs, b.length = size) :
    bs.flatten.length = size * bs.length := by
  induction bs with
  | nil => rfl
  | cons b bs ih =>
    rw [List.flatten_cons, List.length_append, h b (List.mem_cons_self ..),
      ih fun b' hb' => h b' (List.mem_cons_of_mem _ hb'), List.length_cons, Nat.mul_succ,
      Nat.add_comm]

theorem chunksFrom_flatten {size : Nat} {bs : List Bytes} (h : ∀ b ∈ bs, b.length = size)
    (done : List Bytes) : chunksFrom size bs.length bs.flatten done = done.reverse ++ bs := by
  induction bs generalizing done with
  | nil => simp [chunksFrom]
  | cons b bs ih =>
    have hb : b.length = size := h b (List.mem_cons_self ..)
    rw [List.length_cons, List.flatten_cons, chunksFrom, ← hb, List.drop_left, List.take_left, hb,
      ih fun b' hb' => h b' (List.mem_cons_of_mem _ hb')]
    simp

/-- Cutting finds the chunks that a byte string was put together from. -/
theorem chunks_flatten {size : Nat} (hpos : 0 < size) {bs : List Bytes}
    (h : ∀ b ∈ bs, b.length = size) : chunks size bs.flatten = .ok bs := by
  rw [chunks, if_neg (Nat.ne_of_gt hpos), length_flatten_of_forall h,
    Nat.mul_div_cancel_left _ hpos, chunksFrom_flatten h]
  rfl

/-- A byte string of the right length is put together from chunks. -/
theorem exists_flatten_eq {size : Nat} (count : Nat) (bytes : Bytes)
    (hlen : bytes.length = size * count) :
    ∃ bs : List Bytes, bytes = bs.flatten ∧ ∀ b ∈ bs, b.length = size := by
  induction count generalizing bytes with
  | zero => exact ⟨[], List.length_eq_zero_iff.mp hlen, by simp⟩
  | succ count ih =>
    rw [Nat.mul_succ] at hlen
    obtain ⟨bs, hbs, hsize⟩ := ih (bytes.drop size) (by rw [List.length_drop]; omega)
    refine ⟨bytes.take size :: bs, ?_, ?_⟩
    · rw [List.flatten_cons, ← hbs, List.take_append_drop]
    · rintro b (_ | ⟨_, hb⟩)
      · rw [List.length_take]; omega
      · exact hsize b hb

theorem isRagged_of_pos {size : Nat} (hpos : 0 < size) (bytes : Bytes) :
    isRagged size bytes = .ok (bytes.length % size != 0) := by
  rw [isRagged, if_neg (Nat.ne_of_gt hpos), Length.rem, if_neg (Nat.ne_of_gt hpos)]
  rfl

theorem decodeChunks_flatten {size : Nat} (hpos : 0 < size) (decode : Bytes → Outcome α)
    {bs : List Bytes} (h : ∀ b ∈ bs, b.length = size) :
    decodeChunks size decode bs.flatten = bs.mapM decode := by
  have hrag : isRagged size bs.flatten = .ok false := by
    rw [isRagged_of_pos hpos, length_flatten_of_forall h, Nat.mul_mod_right]
    rfl
  rw [decodeChunks, hrag, chunks_flatten hpos h]
  rfl

/-- A run decodes to `as` when it is put together from chunks that decode to them. -/
theorem decodeChunks_eq_ok {size : Nat} (hpos : 0 < size) {decode : Bytes → Outcome α}
    {bytes : Bytes} {as : List α} :
    decodeChunks size decode bytes = .ok as ↔ ∃ bs : List Bytes, bytes = bs.flatten ∧
      (∀ b ∈ bs, b.length = size) ∧ List.Forall₂ (fun b a => decode b = .ok a) bs as := by
  constructor
  · intro h
    by_cases hmod : bytes.length % size = 0
    · obtain ⟨bs, rfl, hbs⟩ := exists_flatten_eq (bytes.length / size) bytes
        (Nat.mul_div_cancel' (Nat.dvd_of_mod_eq_zero hmod)).symm
      rw [decodeChunks_flatten hpos decode hbs] at h
      exact ⟨bs, rfl, hbs, Outcome.mapM_eq_ok.mp h⟩
    · have hrag : isRagged size bytes = .ok true := by
        rw [isRagged_of_pos hpos]
        simp [hmod]
      have hne : bytes.isEmpty = false := by
        cases bytes with
        | nil => exact absurd (Nat.zero_mod size) hmod
        | cons => rfl
      rw [decodeChunks, hrag] at h
      simp [hne, refuse] at h
  · rintro ⟨bs, rfl, hbs, has⟩
    rw [decodeChunks_flatten hpos decode hbs]
    exact Outcome.mapM_eq_ok.mpr has

/-- Of values of no bytes, only the empty run is accepted. -/
theorem decodeChunks_zero {decode : Bytes → Outcome α} {bytes : Bytes} {as : List α} :
    decodeChunks 0 decode bytes = .ok as ↔ bytes = [] ∧ as = [] := by
  cases bytes with
  | nil =>
    show (Except.ok [] : Outcome (List α)) = .ok as ↔ _
    simp [eq_comm]
  | cons byte bytes =>
    show (refuse _ : Outcome (List α)) = .ok as ↔ _
    simp [refuse]

/-! ### The laws -/

/-- The bytes of a value: what is appended to an empty buffer. -/
def FixedCodec.image (c : FixedCodec α) (a : α) : Bytes := (c.append a []).2

/-- All ways of writing a value agree, and never fail. -/
structure FixedCodec.Lawful (c : FixedCodec α) : Prop where
  /-- The classification is the size. -/
  size?_eq : c.size? = some c.size
  /-- The image has that size. -/
  length_image : ∀ a, (c.image a).length = c.size
  /-- Appending appends the image. -/
  append_eq : ∀ a out, c.append a out = (.ok (), out ++ c.image a)
  /-- Storing in a slice of the right length puts the image there, whatever it held. -/
  store_eq : ∀ a dst, dst.length = c.size → c.store a dst = .ok (c.image a)
  /-- Appending a run appends the images one after the other. -/
  appendAll_eq : ∀ as out, c.appendAll as out = (.ok (), out ++ as.flatMap c.image)
  /-- A run is decoded chunk by chunk. -/
  decodeAll_eq : ∀ bytes, c.decodeAll bytes = decodeChunks c.size c.decode bytes

theorem appendStored_eq {size : Nat} {store : α → Bytes → Outcome Bytes} {image : α → Bytes}
    (hstore : ∀ a dst, dst.length = size → store a dst = .ok (image a)) (a : α) (out : Bytes) :
    appendStored size store a out = (.ok (), out ++ image a) := by
  rw [appendStored, hstore a _ List.length_replicate]

/-- Appending one by one, when appending one never fails. -/
theorem appendEach_eq {append : α → Step Bytes Unit} {image : α → Bytes}
    (h : ∀ a out, append a out = (.ok (), out ++ image a)) (as : List α) (out : Bytes) :
    appendEach append as out = (.ok (), out ++ as.flatMap image) := by
  induction as generalizing out with
  | nil => simp [appendEach]
  | cons a as ih =>
    rw [appendEach, Step.bind_of_ok (h a out), ih, List.flatMap_cons, List.append_assoc]

/-- The laws of a codec whose runs go element by element come down to one image for appending and
storing. -/
theorem Codec.lawful_fixed {c : Codec α} {size : Nat} {store : α → Bytes → Outcome Bytes}
    (image : α → Bytes) (hsize : c.size? = some size) (hlen : ∀ a, (image a).length = size)
    (happend : ∀ a out, c.append a out = (.ok (), out ++ image a))
    (hstore : ∀ a dst, dst.length = size → store a dst = .ok (image a)) :
    (c.fixed size store).Lawful := by
  have himage : (c.fixed size store).image = image := by
    funext a
    show (c.append a []).2 = image a
    rw [happend]
    rfl
  refine ⟨hsize, ?_, ?_, ?_, ?_, fun _ => rfl⟩ <;> rw [himage]
  · exact hlen
  · exact happend
  · exact hstore
  · exact appendEach_eq (appendStored_eq hstore)

theorem size_toArray_of_length {n : Nat} {values : List α} (h : values.length = n) :
    values.toArray.size = n := List.size_toArray.trans h

/-- A vector of the values of a list, which has to have as many. -/
def vectorOfList (n : Nat) (values : List α) : Outcome (Vector α n) :=
  if h : values.length = n then .ok ⟨values.toArray, size_toArray_of_length h⟩
  else refuse (.invalidLength n values.length)

theorem vectorOfList_eq_ok {n : Nat} {as : List α} {values : Vector α n} :
    vectorOfList n as = .ok values ↔ as = values.toList := by
  rw [vectorOfList]
  constructor
  · intro h
    split at h
    · rw [← Except.ok.inj h]
      rfl
    · cases h
  · rintro rfl
    rw [dif_pos Vector.length_toList]
    exact congrArg Except.ok (Vector.toArray_inj.mp (Array.toArray_toList ..))

theorem decodeVector_eq (c : FixedCodec α) (n : Nat) (bytes : Bytes) :
    decodeVector c n bytes = (do
      expectLength (c.size * n) bytes
      let values ←
        (if c.size = 0 then (List.replicate n []).mapM c.decode else c.decodeAll bytes)
      vectorOfList n values) := by
  rw [decodeVector]
  by_cases hzero : c.size = 0 <;> simp only [hzero, if_true, if_false] <;> rfl

namespace FixedCodec.Lawful

variable {c : FixedCodec β}

theorem encode_eq (h : c.Lawful) (b : β) : c.encode b = .ok (c.image b) := by
  rw [Codec.encode, h.append_eq]
  rfl

theorem appendFixed_eq (h : c.Lawful) (b : β) (out : Bytes) :
    c.appendFixed b out = (.ok (), out ++ c.image b) :=
  appendStored_eq h.store_eq b out

/-- Bytes that an image fills have its size; runs of images are runs of chunks. -/
theorem length_of_mem_map (h : c.Lawful) (bs : List β) :
    ∀ b ∈ bs.map c.image, b.length = c.size := by
  intro b hb
  obtain ⟨a, -, rfl⟩ := List.mem_map.mp hb
  exact h.length_image a

theorem length_flatMap (h : c.Lawful) (bs : List β) :
    (bs.flatMap c.image).length = c.size * bs.length := by
  rw [List.flatMap_def, length_flatten_of_forall (h.length_of_mem_map bs),
    List.length_map]

/-! ### Other types with the same bytes -/

theorem imap (h : c.Lawful) (iso : Iso α β) : (c.imap iso).Lawful :=
  Codec.lawful_fixed (fun a => c.image (iso.forth a)) h.size?_eq (fun _ => h.length_image _)
    (fun _ => h.append_eq _) fun _ => h.store_eq _

theorem via (h : c.Lawful) (toBase : α → β) (ofBase : β → Outcome α) :
    (c.via toBase ofBase).Lawful :=
  Codec.lawful_fixed (fun a => c.image (toBase a)) h.size?_eq (fun _ => h.length_image _)
    (fun _ => h.append_eq _) fun _ => h.store_eq _

/-! ### Vectors -/

/-- A vector is decoded from chunks, as many as it has values, also when they have no bytes. -/
theorem decodeVector_eq_ok (h : c.Lawful) {n : Nat} {bytes : Bytes} {values : Vector β n} :
    decodeVector c n bytes = .ok values ↔ ∃ bs : List Bytes, bytes = bs.flatten ∧
      (∀ b ∈ bs, b.length = c.size) ∧
      List.Forall₂ (fun b a => c.decode b = .ok a) bs values.toList := by
  have hrun : decodeVector c n bytes = .ok values ↔ bytes.length = c.size * n ∧
      (if c.size = 0 then (List.replicate n []).mapM c.decode else c.decodeAll bytes) =
        .ok values.toList := by
    rw [decodeVector_eq, Outcome.bind_eq_ok]
    constructor
    · rintro ⟨u, hlen, h⟩
      obtain ⟨as, has, h⟩ := Outcome.bind_eq_ok.mp h
      obtain rfl := vectorOfList_eq_ok.mp h
      exact ⟨expectLength_eq_ok.mp hlen, has⟩
    · rintro ⟨hlen, has⟩
      exact ⟨(), expectLength_of_eq hlen,
        Outcome.bind_eq_ok.mpr ⟨values.toList, has, vectorOfList_eq_ok.mpr rfl⟩⟩
  rw [hrun]
  by_cases hzero : c.size = 0
  · rw [if_pos hzero, Outcome.mapM_eq_ok, hzero, Nat.zero_mul, List.length_eq_zero_iff]
    constructor
    · rintro ⟨rfl, hvalues⟩
      exact ⟨List.replicate n [], by simp, by simp, hvalues⟩
    · rintro ⟨bs, rfl, hbs, hvalues⟩
      have hcount : bs.length = n := hvalues.length_eq.trans Vector.length_toList
      obtain rfl : bs = List.replicate n [] := List.eq_replicate_iff.mpr
        ⟨hcount, fun b hb => List.length_eq_zero_iff.mp (hbs b hb)⟩
      exact ⟨by simp, hvalues⟩
  · have hpos : 0 < c.size := Nat.pos_of_ne_zero hzero
    rw [if_neg hzero, h.decodeAll_eq, decodeChunks_eq_ok hpos]
    refine and_iff_right_of_imp ?_
    rintro ⟨bs, rfl, hbs, hvalues⟩
    rw [length_flatten_of_forall hbs, hvalues.length_eq, Vector.length_toList]

theorem storeEach_eq (h : c.Lawful) (bs : List β) (dst : Bytes)
    (hlen : dst.length = c.size * bs.length) : storeEach c bs dst = .ok (bs.flatMap c.image) := by
  induction bs generalizing dst with
  | nil => rw [storeEach, List.length_eq_zero_iff.mp hlen]; rfl
  | cons b bs ih =>
    rw [List.length_cons, Nat.mul_succ] at hlen
    rw [storeEach, if_neg (by omega), h.store_eq b _ (by rw [List.length_take]; omega),
      Outcome.ok_bind, ih _ (by rw [List.length_drop]; omega)]
    rfl

/-- The bytes of a vector are those of its values, and none at all when these have none. -/
theorem storeVector_eq {n : Nat} (h : c.Lawful) (values : Vector β n) (dst : Bytes)
    (hlen : dst.length = c.size * n) :
    storeVector c values dst = .ok (values.toList.flatMap c.image) := by
  have hlist : values.toList.length = n := Vector.length_toList
  rw [storeVector]
  split
  · rename_i hzero
    have himage : (values.toList.flatMap c.image).length = 0 := by
      rw [h.length_flatMap, hzero, Nat.zero_mul]
    rw [hzero, Nat.zero_mul] at hlen
    rw [List.length_eq_zero_iff.mp hlen, List.length_eq_zero_iff.mp himage]
  · exact h.storeEach_eq _ _ (by rw [hlist, hlen])

theorem vectorCodec (h : c.Lawful) (n : Nat) : (vectorCodec c n).Lawful :=
  Codec.lawful_fixed (fun values => values.toList.flatMap c.image) rfl
    (fun values => by rw [h.length_flatMap, Vector.length_toList])
    (appendStored_eq h.storeVector_eq) h.storeVector_eq

theorem image_vectorCodec (h : c.Lawful) {n : Nat} (values : Vector β n) :
    (WireForm.vectorCodec c n).image values = values.toList.flatMap c.image := by
  show (appendStored (c.size * n) (storeVector c) values []).2 = _
  rw [appendStored_eq h.storeVector_eq]
  rfl

end FixedCodec.Lawful

end WireForm
