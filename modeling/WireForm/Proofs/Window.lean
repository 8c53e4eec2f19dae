import WireForm.Composite.Tuple
import WireForm.Proofs.Reading
import WireForm.Region

/-!
# Storing fields through a window

Fields of fixed sizes can be stored in a slice by cutting it up, one part for each field. They can
also be stored through a window onto the slice, which moves on behind each field. The two agree,
also on what goes wrong, as long as no field changes the length of its part.

## Main definitions

* `FixedCodec.KeepsLength`, `FixedCodecs.KeepLength` — storing leaves the length of a slice
* `Region.Shows` — what is in front of a window, in it, and behind it
* `Region.passed` — the window behind what was put at its front
* `Tuple.put` — storing all fields through a window
* `stored` — what a step makes of a buffer through the window onto all of it
* `Region.Fills` — a step through a window and the bytes that it puts there

## Main results

* `Region.put_of_ok` — a field stored at the front of a window
* `Tuple.fills_put`, `Tuple.stored_put` — all fields, in a window and in a buffer
-/

namespace WireForm

variable {α τ : Type}

/-- A slice of the right length keeps it when a value is stored there. -/
def FixedCodec.KeepsLength (c : FixedCodec α) : Prop :=
  ∀ a dst stored, dst.length = c.size → c.store a dst = .ok stored → stored.length = dst.length

/-- The same for each of the fields. -/
def FixedCodecs.KeepLength : {τ : Type} → FixedCodecs τ → Prop
  | _, .nil => True
  | _, .cons head tail => head.KeepsLength ∧ tail.KeepLength

/-! ### One field -/

namespace Region

/-- The window shows `middle`; in front of it there is `front` in the buffer, and `back` behind. -/
structure Shows (r : Region) (front middle back : Bytes) : Prop where
  /-- The buffer is made up of the three. -/
  buffer_eq : r.buffer = front ++ middle ++ back
  /-- The window begins behind the first. -/
  start_eq : r.start = front.length
  /-- It says so. -/
  offset_eq : r.offset = front.length
  /-- It is as long as the second. -/
  len_eq : r.len = middle.length

theorem shows_ofBytes (buffer : Bytes) : (ofBytes buffer).Shows [] buffer [] :=
  ⟨(List.append_nil buffer).symm, rfl, rfl, rfl⟩

variable {r : Region} {front slot rest back : Bytes} {c : FixedCodec α} {a : α}

/-- The window behind its first `count` bytes. -/
def behind (r : Region) (count : Nat) : Region :=
  ⟨r.buffer, r.start + count, r.len - count, r.offset + count⟩

/-- The window behind `src`, which was put at its front. -/
def passed (r : Region) (src : Bytes) : Region := (r.overwrite src).behind src.length

theorem advance_eq {count : Nat} (hroom : count ≤ r.len) (hword : r.offset + count < wordLimit) :
    advance count r = (.ok (), r.behind count) := by
  have hoffset : Length.add r.offset count = .ok (r.offset + count) :=
    Length.add_eq_ok.mpr ⟨hword, rfl⟩
  rw [advance, if_neg (Nat.not_lt.mpr hroom), hoffset]
  rfl

/-- What is stored in the place of the first bytes is put there, if it has as many. -/
theorem put_of_store {image : Bytes} (hroom : c.size ≤ r.len)
    (hword : r.offset + c.size < wordLimit)
    (hstore : c.store a (r.bytes.take c.size) = .ok image) (himage : image.length = c.size) :
    put c a r = (.ok (), r.passed image) := by
  have hadvance : advance c.size (r.overwrite image) =
      (.ok (), (r.overwrite image).behind c.size) := advance_eq hroom hword
  rw [put, if_neg (Nat.not_lt.mpr hroom), hstore, passed, himage]
  exact hadvance

theorem Shows.take_bytes (h : r.Shows front (slot ++ rest) back) :
    r.bytes.take slot.length = slot := by
  rw [bytes, h.buffer_eq, h.start_eq, h.len_eq, List.append_assoc, List.drop_left, List.take_left,
    List.take_left]

theorem put_of_short (h : r.len < c.size) : (put c a r).1 = crash := by
  rw [put, if_pos h]

theorem put_of_error (h : r.Shows front (slot ++ rest) back) (hslot : slot.length = c.size)
    {fault : Fault} (hstore : c.store a slot = .error fault) : (put c a r).1 = .error fault := by
  have hlen := h.len_eq
  rw [List.length_append] at hlen
  rw [put, if_neg (by omega), ← hslot, h.take_bytes, hstore]

/-- What is stored takes the place of as many bytes, and the window moves on behind it. -/
theorem put_of_ok (h : r.Shows front (slot ++ rest) back) (hslot : slot.length = c.size)
    (hword : front.length + slot.length < wordLimit) {image : Bytes}
    (hstore : c.store a slot = .ok image) (himage : image.length = slot.length) :
    ∃ r', put c a r = (.ok (), r') ∧ r'.Shows (front ++ image) rest back := by
  have hlen := h.len_eq
  rw [List.length_append] at hlen
  refine ⟨r.passed image, put_of_store (by omega) ?_ ?_ (himage.trans hslot), ?_, ?_, ?_, ?_⟩
  · rwa [h.offset_eq, ← hslot]
  · rwa [← hslot, h.take_bytes]
  · show r.buffer.take r.start ++ image ++ r.buffer.drop (r.start + image.length) =
      front ++ image ++ rest ++ back
    rw [h.buffer_eq, h.start_eq, himage]
    simp [List.drop_append]
  · show r.start + image.length = (front ++ image).length
    rw [h.start_eq, List.length_append]
  · show r.offset + image.length = (front ++ image).length
    rw [h.offset_eq, List.length_append]
  · show r.len - image.length = rest.length
    omega

end Region

/-! ### All fields -/

/-- Store all fields at the front of a window. -/
def Tuple.put {τ : Type} : FixedCodecs τ → τ → Step Region Unit
  | .nil, _ => pure ()
  | .cons head tail, (a, as) => do
    Region.put head a
    put tail as

/-- What a step makes of a buffer through the window onto all of it. -/
def stored (x : Step Region Unit) (dst : Bytes) : Outcome Bytes :=
  match x (Region.ofBytes dst) with
  | (.ok _, r) => .ok r.buffer
  | (.error fault, _) => .error fault

/-- The step fails as `o` does, or puts what `o` gives between `front` and `back`. -/
structure Region.Fills (x : Step Region Unit) (r : Region) (front back : Bytes)
    (o : Outcome Bytes) : Prop where
  /-- The step succeeds and fails with `o`. -/
  outcome_eq : (x r).1 = o.map fun _ => ()
  /-- And then this is what the buffer has. -/
  buffer_eq : ∀ out, o = .ok out → (x r).2.buffer = front ++ out ++ back

theorem Region.fills_error {x : Step Region Unit} {r : Region} {front back : Bytes} {fault : Fault}
    (h : (x r).1 = .error fault) : Fills x r front back (.error fault) where
  outcome_eq := h
  buffer_eq _ hout := by cases hout

namespace Tuple

/-- **Storing through a window is storing in the slice it shows**, and nothing else changes. -/
theorem fills_put {fields : FixedCodecs τ} (hkeep : fields.KeepLength) (as : τ) {r : Region}
    {front middle back : Bytes} (h : r.Shows front middle back)
    (hword : front.length + middle.length < wordLimit) :
    Region.Fills (put fields as) r front back (store fields as middle) := by
  induction fields generalizing r front middle with
  | nil =>
    refine ⟨rfl, fun out hout => ?_⟩
    rw [← Except.ok.inj hout]
    exact h.buffer_eq
  | cons head tail ih =>
    obtain ⟨a, as⟩ := as
    -- Whatever goes wrong with the first field goes wrong with all.
    have hfailed {fault : Fault} (hput : (Region.put head a r).1 = .error fault) :
        Region.Fills (put (.cons head tail) (a, as)) r front back (.error fault) :=
      Region.fills_error (congrArg Prod.fst (Step.bind_of_error (Prod.ext hput rfl)))
    by_cases hshort : middle.length < head.size
    · rw [store, if_pos hshort]
      exact hfailed (Region.put_of_short (h.len_eq ▸ hshort))
    · obtain ⟨slot, rest, rfl, hslot⟩ : ∃ slot rest, middle = slot ++ rest ∧
          slot.length = head.size :=
        ⟨middle.take head.size, middle.drop head.size, (List.take_append_drop ..).symm,
          by rw [List.length_take]; omega⟩
      rw [List.length_append] at hword
      rw [store, if_neg hshort, ← hslot, List.take_left, List.drop_left]
      cases hstore : head.store a slot with
      | error fault => exact hfailed (Region.put_of_error h hslot hstore)
      | ok image =>
        have himage := hkeep.1 a slot image hslot hstore
        obtain ⟨r', hput, hshows⟩ := Region.put_of_ok h hslot (by omega) hstore himage
        obtain ⟨houtcome, hbuffer⟩ := ih hkeep.2 as hshows (by
          rw [List.length_append, himage]
          omega)
        have hrun : put (.cons head tail) (a, as) r = put tail as r' := Step.bind_of_ok hput
        cases hrest : store tail as rest with
        | error fault =>
          rw [hrest] at houtcome
          exact Region.fills_error (by rw [hrun]; exact houtcome)
        | ok images =>
          rw [hrest] at houtcome
          refine ⟨by rw [hrun]; exact houtcome, fun out hout => ?_⟩
          rw [hrun, hbuffer images hrest, ← Except.ok.inj hout, ← List.append_assoc front]

/-- The same for a whole buffer. -/
theorem stored_put {fields : FixedCodecs τ} (hkeep : fields.KeepLength) (as : τ) {dst : Bytes}
    (hword : dst.length < wordLimit) : stored (put fields as) dst = store fields as dst := by
  obtain ⟨houtcome, hbuffer⟩ := fills_put hkeep as (Region.shows_ofBytes dst)
    ((Nat.zero_add dst.length).symm ▸ hword)
  rw [stored]
  cases hstore : store fields as dst with
  | error fault =>
    rw [hstore] at houtcome
    rw [show put fields as (Region.ofBytes dst) = (.error fault, _) from Prod.ext houtcome rfl]
  | ok out =>
    rw [hstore] at houtcome
    have hout := hbuffer out hstore
    rw [List.nil_append, List.append_nil] at hout
    rw [show put fields as (Region.ofBytes dst) = (.ok (), _) from Prod.ext houtcome rfl]
    exact congrArg Except.ok hout

end Tuple

end WireForm
