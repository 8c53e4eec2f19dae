import WireForm.Composite.Form
import WireForm.Proofs.LengthWidth

/-!
# The appending contract

Everything that is encoded is appended to one shared buffer, and the writers that reserve room,
patch and roll back do so at absolute positions in it. What they are for can be said without a
buffer: `Appends x o` holds when `x`, whatever the buffer holds, adds the bytes of `o` to its end,
or fails as `o` does and leaves the old contents in front of whatever it added.

The outcome `o` does not mention the buffer, so it is also what `x` makes of an empty one. That is
why a contract determines the encoding (`Appends.appended_eq`), and why contracts compose: a writer
nested in another finds other contents in front of it than it would on its own, and does the same.

## Main definitions

* `Appends` — the contract

## Main results

* `Appends.bind` — contracts compose by concatenation
* `Writer.appends_length`, `Writer.appends_measured`, `Writer.appends_dynamic` — what the writers
  append
-/

namespace WireForm

variable {α : Type}

/-- `x` appends what `o` says, to any buffer, or fails with the fault of `o` behind the old
contents. -/
structure Appends (x : Step Bytes Unit) (o : Outcome Bytes) : Prop where
  /-- On success, exactly the bytes are appended. -/
  ok : ∀ bytes, o = .ok bytes → ∀ out, x out = (.ok (), out ++ bytes)
  /-- On failure, what the buffer held is still there. -/
  error : ∀ fault, o = .error fault → ∀ out, ∃ rest, x out = (.error fault, out ++ rest)

theorem appends_ok {x : Step Bytes Unit} {bytes : Bytes}
    (h : ∀ out, x out = (.ok (), out ++ bytes)) : Appends x (.ok bytes) where
  ok _ hbytes out := by rw [h out, ← Except.ok.inj hbytes]
  error _ hfault := by cases hfault

theorem appends_error {x : Step Bytes Unit} {fault : Fault}
    (h : ∀ out, ∃ rest, x out = (.error fault, out ++ rest)) : Appends x (.error fault) where
  ok _ hbytes := by cases hbytes
  error _ hfault out := by rw [← Except.error.inj hfault]; exact h out

namespace Appends

variable {x : Step Bytes Unit} {o : Outcome Bytes}

theorem apply_ok {bytes : Bytes} (h : Appends x (.ok bytes)) (out : Bytes) :
    x out = (.ok (), out ++ bytes) := h.ok bytes rfl out

theorem apply_error {fault : Fault} (h : Appends x (.error fault)) (out : Bytes) :
    ∃ rest, x out = (.error fault, out ++ rest) := h.error fault rfl out

/-- The contract is what the step makes of an empty buffer. -/
theorem appended_eq (h : Appends x o) : appended x = o := by
  cases o with
  | ok bytes => rw [appended, h.apply_ok]; rfl
  | error fault =>
    obtain ⟨rest, hrest⟩ := h.apply_error []
    rw [appended, hrest]

theorem encode_eq {c : Codec α} {a : α} (h : Appends (c.append a) o) : c.encode a = o :=
  h.appended_eq

theorem pure : Appends (Pure.pure ()) (.ok []) := appends_ok fun out => by simp

/-- **Contracts compose.** -/
theorem bind {f : Unit → Step Bytes Unit} {p : Outcome Bytes} (hx : Appends x o)
    (hf : Appends (f ()) p) :
    Appends (x >>= f) (do let front ← o; let back ← p; return front ++ back) := by
  cases o with
  | error fault =>
    refine appends_error fun out => ?_
    obtain ⟨rest, hrest⟩ := hx.apply_error out
    exact ⟨rest, Step.bind_of_error hrest⟩
  | ok front =>
    cases p with
    | error fault =>
      refine appends_error fun out => ?_
      obtain ⟨rest, hrest⟩ := hf.apply_error (out ++ front)
      exact ⟨front ++ rest, by rw [Step.bind_of_ok (hx.apply_ok out), hrest, List.append_assoc]⟩
    | ok back =>
      refine appends_ok fun out => ?_
      rw [Step.bind_of_ok (hx.apply_ok out), hf.apply_ok, List.append_assoc]

/-- A value computed beforehand, on which a writer depends. -/
theorem lift_bind {u : Outcome α} {f : α → Step Bytes Unit} {p : α → Outcome Bytes}
    (hf : ∀ a, Appends (f a) (p a)) : Appends (Step.lift u >>= f) (u >>= p) := by
  cases u with
  | error fault => exact appends_error fun out => ⟨[], by simp [Step.bind_apply]⟩
  | ok a => exact hf a

/-- Cutting back what a failing writer has added changes nothing else. -/
theorem rollingBack (h : Appends x o) : Appends (Writer.rollingBack x) o := by
  cases o with
  | error fault =>
    refine appends_error fun out => ⟨[], ?_⟩
    obtain ⟨rest, hrest⟩ := h.apply_error out
    rw [Writer.rollingBack, hrest, List.append_nil]
    show (Except.error fault, (out ++ rest).take out.length) = _
    rw [List.take_left]
  | ok bytes =>
    refine appends_ok fun out => ?_
    rw [Writer.rollingBack, h.apply_ok]

end Appends

/-! ### The writers -/

namespace Writer

variable {w : LengthWidth} {c : Codec α} {a : α}

theorem appends_length (w : LengthWidth) (len : Nat) :
    Appends (length w len) (w.lengthBytes len) := by
  by_cases h : len ≤ w.max
  · obtain ⟨n, hn, hbytes⟩ := LengthWidth.record_of_le h
    rw [LengthWidth.lengthBytes_of_le h]
    refine appends_ok fun out => ?_
    rw [length, Step.bind_of_ok (by rw [hn]; rfl)]
    exact ((w.kind.codec_lawful.appendFixed_eq n out).trans
      (by rw [IntKind.image_codec, hbytes]))
  · have h := Nat.not_le.mp h
    rw [LengthWidth.lengthBytes_of_lt h]
    refine appends_error fun out => ⟨[], ?_⟩
    rw [length, LengthWidth.record_of_lt h, List.append_nil]
    rfl

/-- The room that was reserved is where the patch goes: old contents in front of it and the field
behind it are left alone. -/
theorem patch_reserved {count : Nat} {out bytes stored : Bytes} {store : Bytes → Outcome Bytes}
    (h : store (List.replicate count 0) = .ok stored) :
    patch out.length count store (out ++ List.replicate count 0 ++ bytes) =
      (.ok (), out ++ stored ++ bytes) := by
  have hroom : ((out ++ List.replicate count 0 ++ bytes).drop out.length).take count =
      List.replicate count 0 := by
    rw [List.append_assoc, List.drop_left, List.take_left' List.length_replicate]
  have htake : (out ++ List.replicate count 0 ++ bytes).take out.length = out := by
    rw [List.append_assoc, List.take_left]
  have hdrop : (out ++ List.replicate count 0 ++ bytes).drop (out.length + count) = bytes :=
    List.drop_left' (by simp)
  rw [patch, if_neg (by simp), hroom, h, htake, hdrop]

/-- With the field appended behind the room, its length is what the buffer has grown by. -/
theorem fillMeasured_eq {bytes : Bytes} (h : Appends (c.append a) (.ok bytes)) (out : Bytes) :
    fillMeasured w c a out.length out =
      (Step.lift (w.record bytes.length) >>= fun recorded =>
        patch out.length w.bytes (w.codec.store recorded))
        (out ++ List.replicate w.bytes 0 ++ bytes) := by
  have hreserve : reserve w.bytes out = (.ok (), out ++ List.replicate w.bytes 0) := rfl
  have hlen : Length.sub (out ++ List.replicate w.bytes 0 ++ bytes).length (out.length + w.bytes) =
      .ok bytes.length := by
    rw [Length.sub, if_pos (by simp)]
    simp only [List.length_append, List.length_replicate, Nat.add_sub_cancel_left]
  rw [fillMeasured, Step.bind_of_ok hreserve, Step.bind_of_ok (h.apply_ok _), Step.get_bind, hlen,
    Step.lift_ok_bind]

theorem appends_fillMeasured {o : Outcome Bytes} (h : Appends (c.append a) o) :
    Appends (fun out => fillMeasured w c a out.length out) (o >>= w.frame) := by
  cases o with
  | error fault =>
    refine appends_error fun out => ?_
    have hreserve : reserve w.bytes out = (.ok (), out ++ List.replicate w.bytes 0) := rfl
    obtain ⟨rest, hrest⟩ := h.apply_error (out ++ List.replicate w.bytes 0)
    refine ⟨List.replicate w.bytes 0 ++ rest, ?_⟩
    rw [fillMeasured, Step.bind_of_ok hreserve, Step.bind_of_error hrest, List.append_assoc]
  | ok bytes =>
    rw [Outcome.ok_bind, LengthWidth.frame]
    by_cases hle : bytes.length ≤ w.max
    · obtain ⟨n, hn, hbytes⟩ := LengthWidth.record_of_le hle
      rw [LengthWidth.lengthBytes_of_le hle]
      refine appends_ok fun out => ?_
      have hstore : w.codec.store n (List.replicate w.bytes 0) =
          .ok (BigEndian.encode w.bytes bytes.length) := by
        rw [← hbytes]
        exact IntKind.store_eq n _ List.length_replicate
      rw [fillMeasured_eq h, hn, Step.lift_ok_bind, patch_reserved hstore, List.append_assoc]
    · have hlt := Nat.not_le.mp hle
      rw [LengthWidth.lengthBytes_of_lt hlt]
      refine appends_error fun out => ⟨List.replicate w.bytes 0 ++ bytes, ?_⟩
      rw [fillMeasured_eq h, LengthWidth.record_of_lt hlt, List.append_assoc]
      rfl

/-- **A measured field is its encoding behind its length.** Reserving, appending, patching and
rolling back come to no more than that. -/
theorem appends_measured {o : Outcome Bytes} (h : Appends (c.append a) o) :
    Appends (measured w c a) (o >>= w.frame) :=
  (appends_fillMeasured h).rollingBack

theorem appends_field {o : Outcome Bytes} (h : Appends (c.append a) o) (isLast : Bool) :
    Appends (field w c a isLast) (if c.isSized ∨ isLast then o else o >>= w.frame) := by
  rw [field]
  split
  · exact h
  · exact appends_measured h

/-- Some lengths, one after the other. -/
def headerBytes (w : LengthWidth) : List Nat → Outcome Bytes
  | [] => .ok []
  | len :: lens => do
    let length ← w.lengthBytes len
    let header ← headerBytes w lens
    return length ++ header

theorem appends_lengths (w : LengthWidth) (fields : List Bytes) :
    Appends (lengths w fields) (headerBytes w (fields.map List.length)) := by
  induction fields with
  | nil => exact Appends.pure
  | cons field fields ih => exact (appends_length w field.length).bind ih

/-- Encoded fields stand behind the lengths of all of them but the last. -/
theorem appends_dynamic (w : LengthWidth) (fields : List Bytes) :
    Appends (dynamic w fields)
      (do
        let header ← headerBytes w (fields.dropLast.map List.length)
        return header ++ fields.flatten) :=
  (appends_lengths w fields.dropLast).rollingBack.bind (appends_ok fun _ => rfl)

end Writer

end WireForm
