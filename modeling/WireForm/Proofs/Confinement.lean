import WireForm.Proofs.Scalar
import WireForm.Proofs.View
import WireForm.Proofs.Window

/-!
# Writing stays within its range

Whoever writes through a window onto a buffer is given the part of the buffer that the window shows,
and no other. What is put at its front goes to the bytes there and moves the window past them, so
its end stays where it was; what is done in an inner window is seen in the buffer, but not in where
the outer window begins and ends. A write for which there is no room changes nothing.

Windows are written through in any order and nested to any depth, and each next step may depend on
all that was seen before. So what can become of a window is a relation, closed under single steps,
under inner windows, and under doing one thing after the other.

The offset that a window reports moves on with the place where it begins. A window that reports the
right offset and lies in its buffer does so after whatever is done with it, and no step that checks
first crashes.

## Main definitions

* `SameOutside` — two byte strings that differ in one range at most
* `Region.InBuffer` — a window that lies in its buffer
* `Region.Becomes` — what can become of a window
* `Region.writeEach` — writes back to back
* `Region.StaysWithin`, `Region.WritesExactly` — what is left alone, and what each step comes to

## Main results

* `Region.Becomes.staysWithin` — a window is all that can change
* `Region.writeEach_eq_ok` — writes that succeed back to back write their concatenation
* `writes_stay_within_their_range` — all of it
-/

namespace WireForm

variable {α : Type}

/-! ### What is left alone -/

/-- The byte strings have the same length, and the same bytes in front of `start` and from `stop`
on. -/
structure SameOutside (start stop : Nat) (before after : Bytes) : Prop where
  /-- The lengths are the same. -/
  length_eq : after.length = before.length
  /-- So are the bytes out of the range. -/
  getElem?_eq : ∀ i, i < start ∨ stop ≤ i → after[i]? = before[i]?

namespace SameOutside

variable {start stop start' stop' : Nat} {a b c : Bytes}

theorem refl (start stop : Nat) (a : Bytes) : SameOutside start stop a a := ⟨rfl, fun _ _ => rfl⟩

theorem trans (hab : SameOutside start stop a b) (hbc : SameOutside start stop b c) :
    SameOutside start stop a c where
  length_eq := hbc.length_eq.trans hab.length_eq
  getElem?_eq i hi := (hbc.getElem?_eq i hi).trans (hab.getElem?_eq i hi)

/-- A range may be made larger. -/
theorem mono (h : SameOutside start stop a b) (hstart : start' ≤ start) (hstop : stop ≤ stop') :
    SameOutside start' stop' a b where
  length_eq := h.length_eq
  getElem?_eq i hi := h.getElem?_eq i (by omega)

end SameOutside

theorem FixedCodec.Lawful.keepsLength {c : FixedCodec α} (h : c.Lawful) : c.KeepsLength := by
  intro a dst stored hdst hstore
  rw [h.store_eq a dst hdst] at hstore
  rw [← Except.ok.inj hstore, h.length_image, hdst]

namespace Region

variable {r r' : Region} {src stored : Bytes} {c : FixedCodec α} {a : α} {start len : Nat}

/-! ### Putting bytes in place of others -/

/-- The window lies in its buffer where it says, and the buffer in the machine. -/
structure InBuffer (r : Region) : Prop where
  /-- The window begins where it says. -/
  offset_eq : r.offset = r.start
  /-- It does not end behind the buffer. -/
  end_le : r.start + r.len ≤ r.buffer.length
  /-- The length of the buffer is a machine word. -/
  length_lt : r.buffer.length < wordLimit

theorem inBuffer_ofBytes {buffer : Bytes} (hword : buffer.length < wordLimit) :
    (ofBytes buffer).InBuffer :=
  ⟨rfl, Nat.le_of_eq (Nat.zero_add _), hword⟩

theorem InBuffer.length_take_bytes (h : r.InBuffer) (hle : len ≤ r.len) :
    (r.bytes.take len).length = len := by
  have hend := h.end_le
  rw [bytes, List.length_take, List.length_take, List.length_drop]
  omega

/-- An offset in the window is a machine word. -/
theorem InBuffer.offset_add_lt (h : r.InBuffer) (hle : len ≤ r.len) :
    r.offset + len < wordLimit := by
  have hend := h.end_le
  have hword := h.length_lt
  rw [h.offset_eq]
  omega

/-- There are as many bytes in front of the window as its place says. -/
theorem InBuffer.length_front (h : r.InBuffer) : (r.buffer.take r.start).length = r.start := by
  have hend := h.end_le
  rw [List.length_take]
  omega

theorem InBuffer.length_edit (h : r.InBuffer) {edit : Bytes → Bytes}
    (hedit : ∀ taken, (edit taken).length = taken.length) (hle : len ≤ r.len) :
    (edit (r.bytes.take len)).length = len := by
  rw [hedit, h.length_take_bytes hle]

/-- The bytes put there take the place of as many, and all others stay. -/
theorem InBuffer.sameOutside_overwrite (h : r.InBuffer) (hle : src.length ≤ r.len) :
    SameOutside r.start (r.start + src.length) r.buffer (r.overwrite src).buffer := by
  have hend := h.end_le
  have hfront := h.length_front
  refine ⟨?_, fun i hi => ?_⟩
  · show (r.buffer.take r.start ++ src ++ r.buffer.drop (r.start + src.length)).length = _
    rw [List.length_append, List.length_append, hfront, List.length_drop]
    omega
  · show (r.buffer.take r.start ++ src ++ r.buffer.drop (r.start + src.length))[i]? = _
    rcases hi with hi | hi
    · rw [List.append_assoc, List.getElem?_append_left (by omega), List.getElem?_take_of_lt hi]
    · have hskip : (r.buffer.take r.start ++ src).length = r.start + src.length := by
        rw [List.length_append, hfront]
      rw [List.getElem?_append_right (by omega), hskip, List.getElem?_drop]
      exact congrArg (r.buffer[·]?) (by omega)

/-- They are found where they were put. -/
theorem InBuffer.take_drop_overwrite (h : r.InBuffer) (src : Bytes) :
    ((r.overwrite src).buffer.drop r.start).take src.length = src := by
  show ((r.buffer.take r.start ++ src ++ r.buffer.drop (r.start + src.length)).drop
    r.start).take src.length = src
  rw [List.append_assoc, List.drop_left' h.length_front, List.take_left]

/-- `r'` begins behind `src`, which stands where `r` begins, and ends where `r` does. All else is as
it was. -/
structure MovesPast (r : Region) (src : Bytes) (r' : Region) : Prop where
  /-- The window begins behind the bytes. -/
  start_eq : r'.start = r.start + src.length
  /-- It says so. -/
  offset_eq : r'.offset = r.offset + src.length
  /-- It is that much shorter. -/
  len_eq : r'.len = r.len - src.length
  /-- The bytes are where the window began. -/
  written : (r'.buffer.drop r.start).take src.length = src
  /-- No others have changed. -/
  sameOutside : SameOutside r.start (r.start + src.length) r.buffer r'.buffer

/-- `r'` is the same window as `r`, which now shows `src`. All else is as it was. -/
structure EditsInPlace (r : Region) (src : Bytes) (r' : Region) : Prop where
  /-- The window begins where it did. -/
  start_eq : r'.start = r.start
  /-- It says so. -/
  offset_eq : r'.offset = r.offset
  /-- It is as long. -/
  len_eq : r'.len = r.len
  /-- It shows the bytes. -/
  bytes_eq : r'.bytes = src
  /-- No others have changed. -/
  sameOutside : SameOutside r.start (r.start + r.len) r.buffer r'.buffer

theorem InBuffer.movesPast (h : r.InBuffer) (hle : src.length ≤ r.len) :
    r.MovesPast src (r.passed src) where
  start_eq := rfl
  offset_eq := rfl
  len_eq := rfl
  written := h.take_drop_overwrite src
  sameOutside := h.sameOutside_overwrite hle

theorem InBuffer.editsInPlace (h : r.InBuffer) (hlen : src.length = r.len) :
    r.EditsInPlace src (r.overwrite src) where
  start_eq := rfl
  offset_eq := rfl
  len_eq := rfl
  bytes_eq := by
    show ((r.overwrite src).buffer.drop r.start).take r.len = src
    rw [← hlen]
    exact h.take_drop_overwrite src
  sameOutside := hlen ▸ h.sameOutside_overwrite (Nat.le_of_eq hlen)

theorem passed_nil (r : Region) : r.passed [] = r := by
  have hbuffer : (r.overwrite []).buffer = r.buffer := by
    show r.buffer.take r.start ++ [] ++ r.buffer.drop (r.start + 0) = r.buffer
    rw [List.append_nil, Nat.add_zero, List.take_append_drop]
  rw [passed, behind, hbuffer]
  rfl

/-- What is put behind other bytes is put there with them. -/
theorem InBuffer.passed_passed (h : r.InBuffer) (src src' : Bytes) :
    (r.passed src).passed src' = r.passed (src ++ src') := by
  have hskip : (r.buffer.take r.start ++ src).length = r.start + src.length := by
    rw [List.length_append, h.length_front]
  have hbuffer : ((r.passed src).overwrite src').buffer = (r.overwrite (src ++ src')).buffer := by
    show (r.buffer.take r.start ++ src ++ r.buffer.drop (r.start + src.length)).take
        (r.start + src.length) ++ src' ++
        (r.buffer.take r.start ++ src ++ r.buffer.drop (r.start + src.length)).drop
          (r.start + src.length + src'.length) =
      r.buffer.take r.start ++ (src ++ src') ++ r.buffer.drop (r.start + (src ++ src').length)
    rw [List.take_left' hskip, ← List.drop_drop, List.drop_left' hskip, List.drop_drop,
      List.length_append, Nat.add_assoc, List.append_assoc (r.buffer.take r.start)]
  show (⟨((r.passed src).overwrite src').buffer, r.start + src.length + src'.length,
      r.len - src.length - src'.length, r.offset + src.length + src'.length⟩ : Region) =
    ⟨(r.overwrite (src ++ src')).buffer, r.start + (src ++ src').length,
      r.len - (src ++ src').length, r.offset + (src ++ src').length⟩
  rw [hbuffer, List.length_append, Nat.add_assoc, Nat.add_assoc, Nat.sub_sub]

/-! ### Single steps -/

/-- To take bytes out and put as many in their place is to put those at the front. -/
theorem take_eq (h : r.InBuffer) {edit : Bytes → Bytes}
    (hedit : len ≤ r.len → (edit (r.bytes.take len)).length = len) :
    take len edit r =
      if len ≤ r.len then (.ok (), r.passed (edit (r.bytes.take len)))
      else (refuse (.bufferOverrun r.offset len r.len), r) := by
  have hend := h.offset_add_lt (Nat.le_refl _)
  have hoffset : r.offset < wordLimit := by omega
  rw [take, View.checkedRange_eq (by omega), Nat.zero_add]
  by_cases hle : len ≤ r.len
  · rw [if_pos hle, if_pos hle, advance_eq hle (h.offset_add_lt hle), passed, hedit hle]
    rfl
  · rw [if_neg hle, if_neg hle, Length.saturatingAdd_zero hoffset]
    rfl

theorem write_eq (h : r.InBuffer) (src : Bytes) :
    write src r =
      if src.length ≤ r.len then (.ok (), r.passed src)
      else (refuse (.bufferOverrun r.offset src.length r.len), r) :=
  take_eq h fun _ => rfl

/-- What is stored in the place of the first bytes has as many. -/
theorem InBuffer.length_stored (h : r.InBuffer) (hkeep : c.KeepsLength) (hroom : c.size ≤ r.len)
    (hstore : c.store a (r.bytes.take c.size) = .ok stored) : stored.length = c.size := by
  have hslot := h.length_take_bytes hroom
  rw [hkeep a _ stored hslot hstore, hslot]

theorem put_eq (h : r.InBuffer) (hkeep : c.KeepsLength) (hroom : c.size ≤ r.len)
    (hstore : c.store a (r.bytes.take c.size) = .ok stored) :
    put c a r = (.ok (), r.passed stored) :=
  put_of_store hroom (h.offset_add_lt hroom) hstore (h.length_stored hkeep hroom hstore)

/-- To store a value for which there is room is to write its image. -/
theorem put_eq_write (h : r.InBuffer) (hc : c.Lawful) (hroom : c.size ≤ r.len) :
    put c a r = write (c.image a) r := by
  have hstore := hc.store_eq a _ (h.length_take_bytes hroom)
  rw [put_eq h hc.keepsLength hroom hstore, write_eq h, hc.length_image, if_pos hroom]

theorem sub_eq (h : r.InBuffer) (start len : Nat) :
    r.sub start len =
      if start + len ≤ r.len then .ok ⟨r.buffer, r.start + start, len, r.offset + start⟩
      else refuse (.bufferOverrun (Length.saturatingAdd r.offset start) len (r.len - start)) := by
  have hend := h.offset_add_lt (Nat.le_refl _)
  rw [sub, View.checkedRange_eq (by omega)]
  by_cases hle : start + len ≤ r.len
  · have hstart : start ≤ r.len := by omega
    have hoffset : Length.add r.offset start = .ok (r.offset + start) :=
      Length.add_eq_ok.mpr ⟨h.offset_add_lt hstart, rfl⟩
    rw [if_pos hle, if_pos hle, Outcome.ok_bind]
    show (if start ≤ start + len ∧ start + len ≤ r.len then do
      let offset ← Length.add r.offset start
      return ⟨r.buffer, r.start + start, start + len - start, offset⟩
      else crash : Outcome Region) = _
    rw [if_pos ⟨Nat.le_add_right _ _, hle⟩, hoffset, Nat.add_sub_cancel_left]
    rfl
  · rw [if_neg hle, if_neg hle]
    rfl

/-! ### Any steps -/

/-- What can become of a window by writing through it. -/
inductive Becomes : Region → Region → Prop where
  /-- Nothing was done. -/
  | refl (r : Region) : Becomes r r
  /-- Bytes were taken and edited, or refused. -/
  | take {edit : Bytes → Bytes} (hedit : ∀ taken, (edit taken).length = taken.length)
    (r : Region) (len : Nat) : Becomes r (Region.take len edit r).2
  /-- Bytes were written, or refused. -/
  | write (r : Region) (src : Bytes) : Becomes r (Region.write src r).2
  /-- A value of a fixed size was stored where there was room for it. -/
  | put {α : Type} {c : FixedCodec α} {a : α} {r : Region} {stored : Bytes}
    (hkeep : c.KeepsLength) (hroom : c.size ≤ r.len)
    (hstore : c.store a (r.bytes.take c.size) = .ok stored) : Becomes r (Region.put c a r).2
  /-- All bytes of the window were edited in place. -/
  | edit {r : Region} {src : Bytes} (hlen : src.length = r.len) : Becomes r (r.overwrite src)
  /-- An inner window was written through. -/
  | within {r inner inner' : Region} {start len : Nat} (hsub : r.sub start len = .ok inner)
    (h : Becomes inner inner') : Becomes r (r.rejoin inner')
  /-- One thing was done after the other. -/
  | trans {r r' r'' : Region} (h : Becomes r r') (h' : Becomes r' r'') : Becomes r r''

theorem Becomes.fill (r : Region) (byte : UInt8) : r.Becomes (r.fill byte) :=
  .edit List.length_replicate

/-- The window ends where it did, has not gone back, and is all that may have changed. -/
structure StaysWithin (r r' : Region) : Prop where
  /-- The end stays, by the offset that is reported. -/
  end_eq : r'.offset + r'.len = r.offset + r.len
  /-- So it does in the buffer. -/
  stop_eq : r'.start + r'.len = r.start + r.len
  /-- The window does not go back. -/
  offset_le : r.offset ≤ r'.offset
  /-- What is out of the window stays. -/
  sameOutside : SameOutside r.start (r.start + r.len) r.buffer r'.buffer

namespace StaysWithin

theorem refl (r : Region) : r.StaysWithin r := ⟨rfl, rfl, Nat.le_refl _, .refl _ _ _⟩

theorem start_le (h : r.StaysWithin r') : r.start ≤ r'.start := by
  have hend := h.end_eq
  have hstop := h.stop_eq
  have hoffset := h.offset_le
  omega

theorem inBuffer (h : r.StaysWithin r') (hr : r.InBuffer) : r'.InBuffer := by
  refine ⟨?_, ?_, ?_⟩
  · have hend := h.end_eq
    have hstop := h.stop_eq
    rw [hr.offset_eq] at hend
    omega
  · rw [h.stop_eq, h.sameOutside.length_eq]
    exact hr.end_le
  · rw [h.sameOutside.length_eq]
    exact hr.length_lt

theorem trans {r'' : Region} (h : r.StaysWithin r') (h' : r'.StaysWithin r'') :
    r.StaysWithin r'' where
  end_eq := h'.end_eq.trans h.end_eq
  stop_eq := h'.stop_eq.trans h.stop_eq
  offset_le := Nat.le_trans h.offset_le h'.offset_le
  sameOutside := h.sameOutside.trans (h'.sameOutside.mono h.start_le (Nat.le_of_eq h.stop_eq))

theorem passed (hr : r.InBuffer) (hle : src.length ≤ r.len) : r.StaysWithin (r.passed src) where
  end_eq := by
    show r.offset + src.length + (r.len - src.length) = r.offset + r.len
    omega
  stop_eq := by
    show r.start + src.length + (r.len - src.length) = r.start + r.len
    omega
  offset_le := Nat.le_add_right _ _
  sameOutside := (hr.sameOutside_overwrite hle).mono (Nat.le_refl _) (Nat.add_le_add_left hle _)

end StaysWithin

/-- The outer window stays as it was when an inner one was written through, and only the inner one
has changed. -/
theorem StaysWithin.rejoin {inner inner' : Region} (hr : r.InBuffer)
    (hsub : r.sub start len = .ok inner) (h : inner.InBuffer → inner.StaysWithin inner') :
    inner'.InBuffer ∧ inner'.offset + inner'.len = r.offset + start + len ∧ start + len ≤ r.len ∧
      SameOutside (r.start + start) (r.start + start + len) r.buffer
        (r.rejoin inner').buffer := by
  have hend := hr.end_le
  rw [sub_eq hr] at hsub
  split at hsub
  · rename_i hle
    obtain rfl : inner = ⟨r.buffer, r.start + start, len, r.offset + start⟩ :=
      (Except.ok.inj hsub).symm
    have hin : InBuffer ⟨r.buffer, r.start + start, len, r.offset + start⟩ := by
      refine ⟨congrArg (· + start) hr.offset_eq, ?_, hr.length_lt⟩
      show r.start + start + len ≤ r.buffer.length
      omega
    exact ⟨(h hin).inBuffer hin, (h hin).end_eq, hle, (h hin).sameOutside⟩
  · cases hsub

/-- **A window is all that can change** by writing through it, and its end stays where it was. -/
theorem Becomes.staysWithin (h : r.Becomes r') (hr : r.InBuffer) : r.StaysWithin r' := by
  induction h with
  | refl r => exact .refl r
  | @take edit hedit r len =>
    rw [take_eq hr (hr.length_edit hedit)]
    split
    · rename_i hle
      exact .passed hr ((hr.length_edit hedit hle).symm ▸ hle)
    · exact .refl r
  | write r src =>
    rw [write_eq hr]
    split
    · rename_i hle
      exact .passed hr hle
    · exact .refl r
  | put hkeep hroom hstore =>
    rw [put_eq hr hkeep hroom hstore]
    exact .passed hr ((hr.length_stored hkeep hroom hstore).symm ▸ hroom)
  | edit hlen => exact ⟨rfl, rfl, Nat.le_refl _, (hr.editsInPlace hlen).sameOutside⟩
  | within hsub _ ih =>
    obtain ⟨-, -, hle, hsame⟩ := StaysWithin.rejoin hr hsub ih
    exact ⟨rfl, rfl, Nat.le_refl _, hsame.mono (Nat.le_add_right _ _) (by omega)⟩
  | trans _ _ ih ih' => exact (ih hr).trans (ih' ((ih hr).inBuffer hr))

/-- Write sources one after the other, up to the first for which there is no room. -/
def writeEach : List Bytes → Step Region Unit
  | [] => pure ()
  | src :: sources => do
    write src
    writeEach sources

/-- **Writes succeed back to back just when there is room for all**, and then they have written the
concatenation of their sources. -/
theorem writeEach_eq_ok (hr : r.InBuffer) (sources : List Bytes) :
    writeEach sources r = (.ok (), r') ↔
      sources.flatten.length ≤ r.len ∧ r' = r.passed sources.flatten := by
  induction sources generalizing r with
  | nil =>
    rw [List.flatten_nil, passed_nil]
    show ((.ok (), r) : Outcome Unit × Region) = (.ok (), r') ↔ _
    simp [eq_comm]
  | cons src sources ih =>
    rw [writeEach, List.flatten_cons, List.length_append]
    by_cases hle : src.length ≤ r.len
    · have hwrite : write src r = (.ok (), r.passed src) := by rw [write_eq hr, if_pos hle]
      have hleft : (r.passed src).len = r.len - src.length := rfl
      rw [Step.bind_of_ok hwrite, ih ((StaysWithin.passed hr hle).inBuffer hr),
        hr.passed_passed, hleft]
      refine and_congr_left fun _ => ?_
      omega
    · have hwrite : write src r = (refuse (.bufferOverrun r.offset src.length r.len), r) := by
        rw [write_eq hr, if_neg hle]
      rw [Step.bind_of_error hwrite]
      refine ⟨fun h => (by cases (Prod.mk.inj h).1), fun h => ?_⟩
      omega

/-- What every step of writing through a window comes to. -/
structure WritesExactly (r : Region) : Prop where
  /-- Bytes are taken and edited just when there are as many. Otherwise nothing changes. -/
  take : ∀ len edit, (∀ taken, (edit taken).length = taken.length) → Region.take len edit r =
    if len ≤ r.len then (.ok (), r.passed (edit (r.bytes.take len)))
    else (refuse (.bufferOverrun r.offset len r.len), r)
  /-- Bytes are written just when there is room for them. Otherwise nothing changes. -/
  write : ∀ src, Region.write src r =
    if src.length ≤ r.len then (.ok (), r.passed src)
    else (refuse (.bufferOverrun r.offset src.length r.len), r)
  /-- A value is stored in the place of as many bytes as its type has. -/
  put : ∀ {α : Type} (c : FixedCodec α) a stored, c.KeepsLength → c.size ≤ r.len →
    c.store a (r.bytes.take c.size) = .ok stored →
      Region.put c a r = (.ok (), r.passed stored) ∧ stored.length = c.size
  /-- What is stored of it is its image. -/
  put_eq_write : ∀ {α : Type} (c : FixedCodec α) a, c.Lawful → c.size ≤ r.len →
    Region.put c a r = Region.write (c.image a) r
  /-- In all these cases the window moves past the bytes put there, and no others change. -/
  movesPast : ∀ src, src.length ≤ r.len → r.MovesPast src (r.passed src)
  /-- An edit of the whole window leaves the window where it is. -/
  edit : ∀ src, src.length = r.len → r.EditsInPlace src (r.overwrite src)
  /-- To set every byte is such an edit. -/
  fill : ∀ byte, r.EditsInPlace (List.replicate r.len byte) (r.fill byte)
  /-- An inner window is granted just when it ends within this one. -/
  sub : ∀ start len, r.sub start len =
    if start + len ≤ r.len then .ok ⟨r.buffer, r.start + start, len, r.offset + start⟩
    else refuse (.bufferOverrun (Length.saturatingAdd r.offset start) len (r.len - start))
  /-- Whatever is done in it, it lies where it says and ends where it did, this one begins and ends
  where it did, and only the bytes of the inner one change. -/
  within : ∀ start len inner inner', r.sub start len = .ok inner → inner.Becomes inner' →
    inner'.InBuffer ∧ inner'.offset + inner'.len = r.offset + start + len ∧
      (r.rejoin inner').start = r.start ∧ (r.rejoin inner').offset = r.offset ∧
      (r.rejoin inner').len = r.len ∧
      SameOutside (r.start + start) (r.start + start + len) r.buffer (r.rejoin inner').buffer
  /-- Writes succeed back to back just when there is room for all, and then they are one write of
  the concatenation. -/
  writeEach : ∀ sources r', Region.writeEach sources r = (.ok (), r') ↔
    sources.flatten.length ≤ r.len ∧ r' = r.passed sources.flatten

theorem writesExactly (hr : r.InBuffer) : r.WritesExactly where
  take _ _ hedit := take_eq hr (hr.length_edit hedit)
  write := write_eq hr
  put _ _ _ hkeep hroom hstore :=
    ⟨put_eq hr hkeep hroom hstore, hr.length_stored hkeep hroom hstore⟩
  put_eq_write _ _ hc hroom := put_eq_write hr hc hroom
  movesPast _ hle := hr.movesPast hle
  edit _ hlen := hr.editsInPlace hlen
  fill _ := hr.editsInPlace List.length_replicate
  sub := sub_eq hr
  within _ _ _ _ hsub hinner := by
    obtain ⟨hin, hend, -, hsame⟩ := StaysWithin.rejoin hr hsub hinner.staysWithin
    exact ⟨hin, hend, rfl, rfl, rfl, hsame⟩
  writeEach sources _ := writeEach_eq_ok hr sources

end Region

/-- **Writes through a window touch exactly their own range.** Whatever was done with a window, in
any order and nested to any depth, and whatever of it was refused, the window ends where it did in
the beginning, only its bytes have changed, it still begins where it says, and every further step
comes to just what the room that is left says. -/
theorem writes_stay_within_their_range {r r' : Region} (hr : r.InBuffer) (h : r.Becomes r') :
    r.StaysWithin r' ∧ r'.InBuffer ∧ r'.WritesExactly :=
  have hin := (h.staysWithin hr).inBuffer hr
  ⟨h.staysWithin hr, hin, Region.writesExactly hin⟩

/-- Two bytes are written and a number is stored, three more bytes are refused, and the last byte is
set in a window within a window. -/
theorem writes_stay_within_their_range_at_nested :
    let r := Region.ofBytes [0, 0, 0, 0, 0, 0]
    let r' : Region := ⟨[9, 8, 1, 2, 0, 7], 4, 2, 4⟩
    r.InBuffer ∧ r.Becomes r' ∧ r.StaysWithin r' ∧
      Region.write [1, 2, 3] r' = (refuse (.bufferOverrun 4 3 2), r') ∧
      r'.sub 1 (wordLimit - 1) = refuse (.bufferOverrun 5 (wordLimit - 1) 1) := by
  intro r r'
  let written : Region := ⟨[9, 8, 0, 0, 0, 0], 2, 4, 2⟩
  let moved : Region := ⟨[9, 8, 1, 2, 0, 0], 4, 2, 4⟩
  let last : Region := ⟨moved.buffer, 5, 1, 5⟩
  let number : (IntKind.unsigned .two).Value := ⟨258, by decide⟩
  have hr : r.InBuffer := Region.inBuffer_ofBytes (by decide)
  have hwritten : r.Becomes written := .write r [9, 8]
  have hstore : (IntKind.unsigned .two).codec.store number [0, 0] = .ok [1, 2] := by decide
  have hput : (Region.put (IntKind.unsigned .two).codec number written).2 = moved := by decide
  have hmoved : written.Becomes moved :=
    hput ▸ .put (r := written) (IntKind.codec_lawful _).keepsLength (by decide) hstore
  have hrefused : moved.Becomes moved := .write moved [1, 2, 3]
  have hsub : moved.sub 1 1 = .ok last := rfl
  have hinner : last.sub 0 1 = .ok last := rfl
  have hset : moved.Becomes r' := .within hsub (.within hinner (.fill last 7))
  have h : r.Becomes r' := hwritten.trans (hmoved.trans (hrefused.trans hset))
  obtain ⟨hstays, -, hwrites⟩ := writes_stay_within_their_range hr h
  exact ⟨hr, h, hstays, hwrites.write [1, 2, 3], hwrites.sub 1 (wordLimit - 1)⟩

end WireForm
