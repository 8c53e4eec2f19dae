import WireForm.Proofs.RecordReading

/-!
# How sequences are read

A sequence has no header and no count. Its reader takes one value after the other until no bytes
are left, so it is no reader of a window in the sense of `Reads`, and its relation is one between
all bytes and all values.

The number of steps is bounded by the number of bytes. That is enough because every value takes at
least one; of values that take none there can be no reader, and the empty sequence is all that is
accepted.

## Main definitions

* `ItemsFrom` — a run of values that a reader gives one by one
* `Codec.ItemFrom` — what a value of a sequence is read from

## Main results

* `itemsFrom_sound`, `itemsFrom_complete` — the loop
* `decodeSequence_sound`, `decodeSequence_complete` — with the checks in front of it
-/

namespace WireForm

variable {α : Type}

/-! ### The loop -/

/-- Values that a reader with the relation `R` gives one by one until no bytes are left. -/
def ItemsFrom (R : Bytes → Bytes → α → Prop) : Bytes → List α → Prop
  | bytes, [] => bytes = []
  | bytes, a :: as => ∃ front rest, bytes = front ++ rest ∧ R front rest a ∧ ItemsFrom R rest as

section Items

variable {read : Step View α} {R : Bytes → Bytes → α → Prop} {fuel : Nat} {v v' : View}
  {done : List α} {a : α}

theorem itemsFrom_of_empty (h : v.bytes = []) : itemsFrom read fuel v done = .ok done.reverse := by
  have hempty := View.isEmpty_iff.mpr h
  cases fuel <;> rw [itemsFrom, if_pos hempty]

theorem itemsFrom_succ (h : v.bytes ≠ []) (hread : read v = (.ok a, v')) :
    itemsFrom read (fuel + 1) v done = itemsFrom read fuel v' (a :: done) := by
  rw [itemsFrom, if_neg (mt View.isEmpty_iff.mp h)]
  simp only [hread]

theorem itemsFrom_sound (h : Reads read R) {as : List α}
    (hok : itemsFrom read fuel v done = .ok as) :
    ∃ items, as = done.reverse ++ items ∧ ItemsFrom R v.bytes items := by
  induction fuel generalizing v done with
  | zero =>
    by_cases hempty : v.bytes = []
    · rw [itemsFrom_of_empty hempty] at hok
      exact ⟨[], by rw [List.append_nil, Except.ok.inj hok], hempty⟩
    · rw [itemsFrom, if_neg (mt View.isEmpty_iff.mp hempty)] at hok
      cases hok
  | succ fuel ih =>
    by_cases hempty : v.bytes = []
    · rw [itemsFrom_of_empty hempty] at hok
      exact ⟨[], by rw [List.append_nil, Except.ok.inj hok], hempty⟩
    · rcases hread : read v with ⟨fault | a, v'⟩
      · rw [itemsFrom, if_neg (mt View.isEmpty_iff.mp hempty)] at hok
        simp [hread] at hok
      · rw [itemsFrom_succ hempty hread] at hok
        obtain ⟨front, hsplit, hR⟩ := h.sound v a v' hread
        obtain ⟨items, rfl, hitems⟩ := ih hok
        exact ⟨a :: items, by simp, front, v'.bytes, hsplit.bytes_eq, hR, hitems⟩

/-- As many steps as there are bytes are enough when every value takes a byte at least. -/
theorem itemsFrom_complete (h : Reads read R)
    (hpos : ∀ front rest a, R front rest a → 0 < front.length) (hv : v.Fits) (hfuel : v.len ≤ fuel)
    {as : List α} (hitems : ItemsFrom R v.bytes as) :
    itemsFrom read fuel v done = .ok (done.reverse ++ as) := by
  induction as generalizing fuel v done with
  | nil => rw [itemsFrom_of_empty hitems, List.append_nil]
  | cons a as ih =>
    obtain ⟨front, rest, hbytes, hR, hitems⟩ := hitems
    obtain ⟨v', hsplit, rfl⟩ := View.Splits.exists_of_bytes_eq hbytes
    have hlen := hsplit.len_eq
    have hfront := hpos front v'.bytes a hR
    cases fuel with
    | zero => omega
    | succ fuel =>
      have hne : v.bytes ≠ [] := by
        rw [hbytes]
        exact List.append_ne_nil_of_left_ne_nil (List.ne_nil_of_length_pos hfront) _
      rw [itemsFrom_succ hne (h.complete v a v' front hv hsplit hR),
        ih (hsplit.fits hv) (by omega) hitems, List.reverse_cons, List.append_assoc]
      rfl

end Items

/-! ### Sequences -/

/-- What a value of a sequence is read from: it is never the last. -/
def Codec.ItemFrom (c : Codec α) (w : LengthWidth) (front rest : Bytes) (a : α) : Prop :=
  ∃ own, c.StandsAs w false own front rest ∧ c.decode own = .ok a

section Sequence

variable {w : LengthWidth} {c : Codec α} {bytes : Bytes} {as : List α}

theorem length_of_itemsFrom {size : Nat} (hsize : c.size? = some size)
    (h : ItemsFrom (c.ItemFrom w) bytes as) : bytes.length = size * as.length := by
  induction as generalizing bytes with
  | nil => rw [show bytes = [] from h]; rfl
  | cons a as ih =>
    obtain ⟨front, rest, rfl, ⟨own, hstands, -⟩, hitems⟩ := h
    obtain ⟨hlen, rfl⟩ := (Codec.standsAs_sized hsize).mp hstands
    rw [List.length_append, ih hitems, hlen, List.length_cons, Nat.mul_succ, Nat.add_comm]

/-- Values of some bytes take some: an unsized one has at least its length. -/
theorem Codec.ItemFrom.length_pos (hsize : c.size? ≠ some 0) {front rest : Bytes} {a : α}
    (h : c.ItemFrom w front rest a) : 0 < front.length := by
  obtain ⟨own, hstands, -⟩ := h
  cases hc : c.size? with
  | some size =>
    obtain ⟨hlen, rfl⟩ := (standsAs_sized hc).mp hstands
    have hne : size ≠ 0 := fun hzero => hsize (by rw [hc, hzero])
    omega
  | none =>
    have hwidth := w.bytes_pos
    rw [(LengthWidth.frame_eq_ok.mp ((standsAs_framed hc).mp hstands)).2, List.length_append,
      BigEndian.length_encode]
    omega

theorem decodeItems_sound (h : decodeItems w c bytes = .ok as) :
    ItemsFrom (c.ItemFrom w) bytes as := by
  obtain ⟨items, rfl, hitems⟩ := itemsFrom_sound (Reader.reads_field w c false) h
  exact hitems

/-- The check that the bytes are a whole number of values only refuses. -/
theorem decodeSequence_sound (h : decodeSequence w c bytes = .ok as) :
    ItemsFrom (c.ItemFrom w) bytes as := by
  rw [decodeSequence] at h
  split at h
  · exact decodeItems_sound h
  · split at h
    · rename_i hempty
      rw [← Except.ok.inj h]
      exact List.isEmpty_iff.mp hempty
    · obtain ⟨ragged, -, h⟩ := Outcome.bind_eq_ok.mp h
      split at h
      · cases h
      · exact decodeItems_sound h

theorem decodeSequence_complete (hlen : bytes.length < wordLimit)
    (hsize : as = [] ∨ c.size? ≠ some 0) (h : ItemsFrom (c.ItemFrom w) bytes as) :
    decodeSequence w c bytes = .ok as := by
  cases as with
  | nil =>
    obtain rfl : bytes = [] := h
    rw [decodeSequence]
    split
    · exact itemsFrom_of_empty rfl
    · rfl
  | cons a as =>
    have hsize : c.size? ≠ some 0 := hsize.resolve_left (List.cons_ne_nil a as)
    have hitems : decodeItems w c bytes = .ok (a :: as) :=
      itemsFrom_complete (Reader.reads_field w c false)
        (fun _ _ _ => Codec.ItemFrom.length_pos hsize) (View.fits_ofBytes hlen) (Nat.le_refl _) h
    rw [decodeSequence]
    split
    · exact hitems
    · rename_i size hsome
      have hpos : 0 < size := Nat.pos_of_ne_zero fun hzero => hsize (by rw [hsome, hzero])
      have hwhole : bytes.length % size = 0 := by
        rw [length_of_itemsFrom hsome h, Nat.mul_mod_right]
      have hne : ¬ bytes.isEmpty = true := by
        obtain ⟨front, rest, rfl, hfront, -⟩ := h
        have hfrontLen := hfront.length_pos hsize
        rw [List.isEmpty_iff, List.append_eq_nil_iff]
        rintro ⟨rfl, -⟩
        exact Nat.lt_irrefl 0 hfrontLen
      rw [if_neg hne, isRagged_of_pos hpos, hwhole]
      exact hitems

end Sequence

end WireForm
