import WireForm.Proofs.DynamicHeader

/-!
# Readers keep their position

A reader is a window that shrinks from the front. Whatever is read from it, in any order and of any
types, and however often that fails in the middle, the window is all that is left of the byte string
behind the position that the reader reports.

A failure does not undo what a step has taken before: bytes are taken first and looked at then. So a
step can fail in two ways. Either too few bytes are left for the part that it takes next, and then
this part is not taken, though a length that was read in front of it is; the refusal has the
position that the reader has then, and the bytes that are left there. Or all was taken, and what was
taken cannot be decoded.

## Main definitions

* `View.RestOf` — a window is all that is left of a byte string
* `Reading`, `Reading.read`, `Reading.run` — a step of a reader, and any number of them
* `Reader.ReadsExactly` — what every step comes to

## Main results

* `Reader.readsExactly` — the steps, at any position
* `Reading.movesOn_read` — a step moves on, by no more than what is left
* `Reading.restOf_run` — so does a run
* `readers_keep_their_position` — all of it
-/

namespace WireForm

variable {α : Type}

/-! ### Positions -/

namespace View

variable {bytes : Bytes} {v : View}

/-- The window is all that is left of a byte string behind the window's offset. -/
structure RestOf (bytes : Bytes) (v : View) : Prop where
  /-- The window ends where the byte string does. -/
  end_eq : v.offset + v.len = bytes.length
  /-- Its bytes are those behind its offset. -/
  bytes_eq : v.bytes = bytes.drop v.offset

theorem restOf_ofBytes (bytes : Bytes) : (ofBytes bytes).RestOf bytes := ⟨Nat.zero_add _, rfl⟩

theorem RestOf.fits (h : v.RestOf bytes) (hword : bytes.length < wordLimit) : v.Fits := by
  rw [Fits, h.end_eq]
  exact hword

/-- To move on leaves the rest. -/
theorem RestOf.after {count : Nat} (h : v.RestOf bytes) (hle : count ≤ v.len) :
    (v.after count).RestOf bytes := by
  have hend := h.end_eq
  refine ⟨?_, ?_⟩
  · show v.offset + count + (v.len - count) = bytes.length
    omega
  · show v.bytes.drop count = bytes.drop (v.offset + count)
    rw [h.bytes_eq, List.drop_drop]

end View

/-! ### Single steps -/

/-- A recorded length can be any number that its bytes can stand for. -/
theorem LengthWidth.recover_of_length {w : LengthWidth} {bytes : Bytes}
    (h : bytes.length = w.bytes) : w.recover bytes = .ok (BigEndian.decode bytes) :=
  recover_eq_ok_iff.mpr (lengthBytes_decode h)

namespace Reader

variable {v : View}

theorem sized_at (hv : v.Fits) (c : Codec α) (len : Nat) :
    sized c len v =
      if len ≤ v.len then (c.decode (v.bytes.take len), v.after len)
      else (refuse (.bufferOverrun v.offset len v.len), v) := by
  have htake := View.take_eq hv len
  by_cases hle : len ≤ v.len
  · rw [if_pos hle] at htake ⊢
    exact Step.bind_of_ok htake
  · rw [if_neg hle] at htake ⊢
    exact Step.bind_of_error htake

theorem rest_at (hv : v.Fits) (c : Codec α) : rest c v = (c.decode v.bytes, v.after v.len) :=
  Step.bind_of_ok (View.takeRest_eq hv)

theorem length_at (hv : v.Fits) (w : LengthWidth) :
    length w v =
      if w.bytes ≤ v.len then
        (.ok (BigEndian.decode (v.bytes.take w.bytes)), v.after w.bytes)
      else (refuse (.bufferOverrun v.offset w.bytes v.len), v) := by
  have htake := View.take_eq hv w.bytes
  by_cases hle : w.bytes ≤ v.len
  · have hrecorded : (v.bytes.take w.bytes).length = w.bytes := by
      rw [List.length_take, ← v.len_eq]
      omega
    rw [if_pos hle] at htake ⊢
    rw [← LengthWidth.recover_of_length hrecorded]
    exact Step.bind_of_ok htake
  · rw [if_neg hle] at htake ⊢
    exact Step.bind_of_error htake

/-- The length is taken before it is known whether there are as many bytes behind it. -/
theorem measured_at (hv : v.Fits) (w : LengthWidth) (c : Codec α) :
    measured w c v =
      let len := BigEndian.decode (v.bytes.take w.bytes)
      let behind := v.after w.bytes
      if w.bytes ≤ v.len then
        if len ≤ behind.len then (c.decode (behind.bytes.take len), behind.after len)
        else (refuse (.bufferOverrun behind.offset len behind.len), behind)
      else (refuse (.bufferOverrun v.offset w.bytes v.len), v) := by
  have hlength := length_at hv w
  dsimp only
  by_cases hle : w.bytes ≤ v.len
  · rw [if_pos hle] at hlength ⊢
    rw [← sized_at (hv.after hle)]
    exact Step.bind_of_ok hlength
  · rw [if_neg hle] at hlength ⊢
    exact Step.bind_of_error hlength

theorem finish_at {bytes : Bytes} (h : v.RestOf bytes) (hword : bytes.length < wordLimit) :
    finish v =
      if v.offset = bytes.length then .ok () else refuse (.sizeMismatch v.offset bytes.length) := by
  have hend := h.end_eq
  rw [finish_eq (h.fits hword), hend]
  exact if_congr (by omega) rfl rfl

/-- What every step of a reader comes to, and where it leaves the reader. -/
structure ReadsExactly (v : View) : Prop where
  /-- A field of a known length is taken and then decoded, and stays taken when that fails. Where
  too few bytes are left none is taken. -/
  sized : ∀ {α : Type} (c : Codec α) (len : Nat), sized c len v =
    if len ≤ v.len then (c.decode (v.bytes.take len), v.after len)
    else (refuse (.bufferOverrun v.offset len v.len), v)
  /-- So is one of a fixed size. -/
  fixed : ∀ {α : Type} (c : FixedCodec α), fixed c v =
    if c.size ≤ v.len then (c.decode (v.bytes.take c.size), v.after c.size)
    else (refuse (.bufferOverrun v.offset c.size v.len), v)
  /-- A field that takes all bytes left always finds them. -/
  rest : ∀ {α : Type} (c : Codec α), rest c v = (c.decode v.bytes, v.after v.len)
  /-- A length is read from its bytes, whatever they are. -/
  length : ∀ w : LengthWidth, length w v =
    if w.bytes ≤ v.len then (.ok (BigEndian.decode (v.bytes.take w.bytes)), v.after w.bytes)
    else (refuse (.bufferOverrun v.offset w.bytes v.len), v)
  /-- Where too few bytes are left behind the length of a field, just the length is taken. Otherwise
  the field is taken as well, and then decoded. -/
  measured : ∀ {α : Type} (w : LengthWidth) (c : Codec α), measured w c v =
    let len := BigEndian.decode (v.bytes.take w.bytes)
    let behind := v.after w.bytes
    if w.bytes ≤ v.len then
      if len ≤ behind.len then (c.decode (behind.bytes.take len), behind.after len)
      else (refuse (.bufferOverrun behind.offset len behind.len), behind)
    else (refuse (.bufferOverrun v.offset w.bytes v.len), v)
  /-- A field of a mixed record is one of these. -/
  field : ∀ {α : Type} (w : LengthWidth) (c : Codec α) (isLast : Bool), field w c isLast v =
    match c.size?, isLast with
    | some size, _ => Reader.sized c size v
    | none, true => Reader.rest c v
    | none, false => Reader.measured w c v
  /-- A dynamic record of no fields has no header. -/
  dynamicHeader_zero : ∀ w : LengthWidth, dynamicHeader w 0 v = (.ok [], v)
  /-- A header is taken as a whole, or not at all, and stays taken when the lengths in it are too
  great for what is left. -/
  dynamicHeader : ∀ (w : LengthWidth) (before : Nat), dynamicHeader w (before + 1) v =
    let headerLen := before * w.bytes
    let lens := w.lengthsIn before v.bytes
    let behind := v.after headerLen
    if wordLimit ≤ headerLen then (refuse (.sizeOverflow .headerLength), v)
    else if v.len < headerLen then (refuse (.bufferOverrun v.offset headerLen v.len), v)
    else if wordLimit ≤ lens.sum then (refuse (.sizeOverflow .fieldLengths), behind)
    else if behind.len < lens.sum then
      (refuse (.bufferOverrun behind.offset lens.sum behind.len), behind)
    else (.ok (lens ++ [behind.len - lens.sum]), behind)

theorem readsExactly (hv : v.Fits) : ReadsExactly v where
  sized := sized_at hv
  fixed c := sized_at hv c.toCodec c.size
  rest := rest_at hv
  length := length_at hv
  measured := measured_at hv
  field w c isLast := by
    rw [field]
    cases c.size? with
    | some size => rfl
    | none => cases isLast <;> rfl
  dynamicHeader_zero _ := rfl
  dynamicHeader := dynamicHeader_of_take fun count _ => View.take_eq hv count

end Reader

/-! ### Any steps -/

/-- A step of a reader, of any type. -/
inductive Reading : Type → Type 1 where
  /-- A field of a fixed size. -/
  | fixed {α : Type} (c : FixedCodec α) : Reading α
  /-- A field of a known length. -/
  | sized {α : Type} (c : Codec α) (len : Nat) : Reading α
  /-- A field that takes all bytes left. -/
  | rest {α : Type} (c : Codec α) : Reading α
  /-- A length. -/
  | length (w : LengthWidth) : Reading Nat
  /-- A field behind its length. -/
  | measured {α : Type} (w : LengthWidth) (c : Codec α) : Reading α
  /-- A field of a mixed record. -/
  | field {α : Type} (w : LengthWidth) (c : Codec α) (isLast : Bool) : Reading α
  /-- The header of a dynamic record of so many fields. -/
  | dynamicHeader (w : LengthWidth) (count : Nat) : Reading (List Nat)

namespace Reading

/-- Perform the step. -/
def read {α : Type} : Reading α → Step View α
  | .fixed c => Reader.fixed c
  | .sized c len => Reader.sized c len
  | .rest c => Reader.rest c
  | .length w => Reader.length w
  | .measured w c => Reader.measured w c
  | .field w c isLast => Reader.field w c isLast
  | .dynamicHeader w count => Reader.dynamicHeader w count

/-- Perform steps one after the other, whether or not those before have failed. -/
def run : List (Σ α : Type, Reading α) → View → View
  | [], v => v
  | ⟨_, step⟩ :: steps, v => run steps (step.read v).2

theorem run_append (steps more : List (Σ α : Type, Reading α)) (v : View) :
    run (steps ++ more) v = run more (run steps v) := by
  induction steps generalizing v with
  | nil => rfl
  | cons step steps ih => exact ih _

/-- The window was left as it was, or it has moved on by bytes that it had. -/
def MovesOn (v v' : View) : Prop := ∃ count ≤ v.len, v' = v.after count

section Moves

variable {v : View} {bytes : Bytes}

theorem movesOn_refl (v : View) : MovesOn v v := ⟨0, Nat.zero_le _, v.after_zero.symm⟩

theorem movesOn_after {count : Nat} (h : count ≤ v.len) : MovesOn v (v.after count) :=
  ⟨count, h, rfl⟩

theorem movesOn_sized (hv : v.Fits) (c : Codec α) (len : Nat) :
    MovesOn v (Reader.sized c len v).2 := by
  rw [Reader.sized_at hv]
  split
  · rename_i hle
    exact movesOn_after hle
  · exact movesOn_refl v

theorem movesOn_measured (hv : v.Fits) (w : LengthWidth) (c : Codec α) :
    MovesOn v (Reader.measured w c v).2 := by
  rw [Reader.measured_at hv]
  dsimp only
  split
  · rename_i hle
    split
    · rename_i hlen
      have hall : w.bytes + BigEndian.decode (v.bytes.take w.bytes) ≤ v.len := by
        have hleft : (v.after w.bytes).len = v.len - w.bytes := rfl
        omega
      rw [View.after_after]
      exact movesOn_after hall
    · exact movesOn_after hle
  · exact movesOn_refl v

/-- **A step moves the reader on**, by no more than what is left, whether or not it fails. -/
theorem movesOn_read (hv : v.Fits) (step : Reading α) : MovesOn v (step.read v).2 := by
  have hexact := Reader.readsExactly hv
  cases step with
  | fixed c => exact movesOn_sized hv c.toCodec c.size
  | sized c len => exact movesOn_sized hv c len
  | rest c =>
    rw [read, hexact.rest]
    exact movesOn_after (Nat.le_refl _)
  | length w =>
    rw [read, hexact.length]
    split
    · rename_i hle
      exact movesOn_after hle
    · exact movesOn_refl v
  | measured w c => exact movesOn_measured hv w c
  | field w c isLast =>
    rw [read, hexact.field]
    split
    · exact movesOn_sized hv c _
    · rw [hexact.rest]
      exact movesOn_after (Nat.le_refl _)
    · exact movesOn_measured hv w c
  | dynamicHeader w count =>
    cases count with
    | zero => exact movesOn_refl v
    | succ before =>
      rw [read, hexact.dynamicHeader]
      dsimp only
      split
      · exact movesOn_refl v
      split
      · exact movesOn_refl v
      rename_i hheader
      have hmoved := movesOn_after (Nat.not_lt.mp hheader)
      split
      · exact hmoved
      split
      · exact hmoved
      · exact hmoved

/-- **A run leaves the rest**, and never goes back. -/
theorem restOf_run (hword : bytes.length < wordLimit) (h : v.RestOf bytes)
    (steps : List (Σ α : Type, Reading α)) :
    (run steps v).RestOf bytes ∧ v.offset ≤ (run steps v).offset := by
  induction steps generalizing v with
  | nil => exact ⟨h, Nat.le_refl _⟩
  | cons step steps ih =>
    obtain ⟨count, hle, hmoved⟩ := movesOn_read (h.fits hword) step.2
    obtain ⟨hrest, hon⟩ := ih (v := (step.2.read v).2) (hmoved ▸ h.after hle)
    refine ⟨hrest, Nat.le_trans ?_ hon⟩
    rw [hmoved]
    exact Nat.le_add_right _ _

end Moves

end Reading

/-- **A reader never loses track of its position.** After any steps, of any types, of which any may
have failed, the unread bytes are those of the byte string behind the offset, and all of them; no
further step goes back; every step comes to what the bytes at this position say, and leaves the
reader behind what it took; and nothing is left over just when the offset is the length of the byte
string. -/
theorem readers_keep_their_position {bytes : Bytes} (hword : bytes.length < wordLimit)
    (steps : List (Σ α : Type, Reading α)) :
    let v := Reading.run steps (View.ofBytes bytes)
    v.offset + v.len = bytes.length ∧ v.bytes = bytes.drop v.offset ∧
      (∀ more, v.offset ≤ (Reading.run (steps ++ more) (View.ofBytes bytes)).offset) ∧
      Reader.ReadsExactly v ∧
      Reader.finish v =
        if v.offset = bytes.length then .ok ()
        else refuse (.sizeMismatch v.offset bytes.length) := by
  intro v
  have hrest : v.RestOf bytes :=
    (Reading.restOf_run hword (View.restOf_ofBytes bytes) steps).1
  refine ⟨hrest.end_eq, hrest.bytes_eq, fun more => ?_, Reader.readsExactly (hrest.fits hword),
    Reader.finish_at hrest hword⟩
  rw [Reading.run_append]
  exact (Reading.restOf_run hword hrest more).2

/-- Behind a length that is too great for what is left, a text that is none is read, and then too
few bytes are left for a header. -/
theorem readers_keep_their_position_at_failures :
    let bytes : Bytes := [9, 255, 254, 7]
    let steps : List (Σ α : Type, Reading α) :=
      [⟨_, .measured .one textCodec⟩, ⟨_, .sized textCodec 2⟩, ⟨_, .dynamicHeader .four 2⟩]
    let v : View := ⟨[7], 3, 1, rfl⟩
    Reading.run steps (View.ofBytes bytes) = v ∧ v.bytes = bytes.drop 3 ∧
      Reader.length .two v = (refuse (.bufferOverrun 3 2 1), v) ∧
      Reader.finish v = refuse (.sizeMismatch 3 4) := by
  intro bytes steps v
  have hrun : Reading.run steps (View.ofBytes bytes) = v := rfl
  obtain ⟨-, hrest, -, hreads, hfinish⟩ :=
    readers_keep_their_position (show bytes.length < wordLimit by decide) steps
  rw [hrun] at hrest hreads hfinish
  exact ⟨hrun, hrest, hreads.length .two, hfinish⟩

end WireForm
