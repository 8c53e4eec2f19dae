import WireForm.Field.Reader
import WireForm.Proofs.LengthWidth

/-!
# The reading contract

Readers take bytes off the front of a window, and every one of them is described in the same way:
by which bytes it takes for which value, given what comes after. `Reads x R` says that `x` gives `a`
by taking `front` and leaving `rest` when `R front rest a` holds, and in no other case. It is the
counterpart of `Appends`, in both directions at once: `sound` is about bytes from anywhere, and
`complete` about bytes that were put together to be read.

Offsets are machine words, so a window which reaches past them cannot be read to its end. Only
`complete` has to know that it does not, and a byte string that fits the machine never does.

## Main definitions

* `View.Fits`, `View.Splits` — windows that can be read, and what taking bytes does to them
* `Reads` — the contract

## Main results

* `Reads.bind` — contracts compose, the second on what the first leaves
* `Reads.decodeWith_sound`, `Reads.decodeWith_complete`, `Reads.decodeWith_iff` — decoding a whole
  byte string
* `Reader.reads_sized`, `Reader.reads_rest`, `Reader.reads_measured` — the readers of single fields
-/

namespace WireForm

variable {α β : Type}

/-! ### Windows -/

namespace View

/-- No position in the window is beyond the machine's words. -/
def Fits (v : View) : Prop := v.offset + v.len < wordLimit

/-- The window `v` begins with `front`, and `v'` is the window behind it. -/
structure Splits (v : View) (front : Bytes) (v' : View) : Prop where
  /-- The bytes are those in front and those left. -/
  bytes_eq : v.bytes = front ++ v'.bytes
  /-- The window has moved on by the bytes in front. -/
  offset_eq : v'.offset = v.offset + front.length

variable {v v' v'' : View} {front back : Bytes}

theorem isEmpty_iff : v.isEmpty ↔ v.bytes = [] := by
  rw [isEmpty, beq_iff_eq, v.len_eq, List.length_eq_zero_iff]

theorem fits_ofBytes {bytes : Bytes} (h : bytes.length < wordLimit) : (ofBytes bytes).Fits := by
  show 0 + bytes.length < wordLimit
  omega

namespace Splits

theorem refl (v : View) : v.Splits [] v := ⟨rfl, rfl⟩

theorem trans (h : v.Splits front v') (h' : v'.Splits back v'') :
    v.Splits (front ++ back) v'' where
  bytes_eq := by rw [h.bytes_eq, h'.bytes_eq, List.append_assoc]
  offset_eq := by rw [h'.offset_eq, h.offset_eq, List.length_append, Nat.add_assoc]

theorem len_eq (h : v.Splits front v') : v.len = front.length + v'.len := by
  rw [v.len_eq, h.bytes_eq, List.length_append, v'.len_eq]

theorem fits (h : v.Splits front v') (hv : v.Fits) : v'.Fits := by
  have hlen := h.len_eq
  have hoffset := h.offset_eq
  rw [Fits] at *
  omega

/-- What is left is determined by what is taken. -/
theorem unique (h : v.Splits front v') (h' : v.Splits front v'') : v' = v'' :=
  View.ext (List.append_cancel_left (h.bytes_eq.symm.trans h'.bytes_eq))
    (h.offset_eq.trans h'.offset_eq.symm)

/-- A window whose bytes are a concatenation can be split there. -/
theorem exists_of_bytes_eq {rest : Bytes} (h : v.bytes = front ++ rest) :
    ∃ v', v.Splits front v' ∧ v'.bytes = rest :=
  ⟨⟨rest, v.offset + front.length, rest.length, rfl⟩, ⟨h, rfl⟩, rfl⟩

end Splits

end View

/-! ### Cuts -/

theorem Length.add_eq_ok {a b c : Nat} : add a b = .ok c ↔ a + b < wordLimit ∧ c = a + b := by
  rw [add]
  split <;> simp_all [crash, eq_comm]

theorem checkedRange_eq_ok {offset len start count : Nat} {range : Nat × Nat} :
    checkedRange offset len start count = .ok range ↔
      start + count < wordLimit ∧ start + count ≤ len ∧ range = (start, start + count) := by
  rw [checkedRange, Length.add?]
  by_cases hword : start + count < wordLimit
  · by_cases hlen : start + count ≤ len <;>
      simp [hword, hlen, checkedRange.overrun, refuse, eq_comm]
  · simp [hword, checkedRange.overrun, refuse]

namespace View

variable {v w : View} {start stop : Nat}

theorem slice_eq_ok :
    v.slice start stop = .ok w ↔ v.offset + start < wordLimit ∧ start ≤ stop ∧ stop ≤ v.len ∧
      w.bytes = (v.bytes.drop start).take (stop - start) ∧ w.offset = v.offset + start := by
  rw [slice, Outcome.bind_eq_ok]
  constructor
  · rintro ⟨offset, hoffset, h⟩
    obtain ⟨hfits, rfl⟩ := Length.add_eq_ok.mp hoffset
    split at h
    · rename_i hrange
      rw [← Except.ok.inj h]
      exact ⟨hfits, hrange.1, hrange.2, rfl, rfl⟩
    · cases h
  · rintro ⟨hfits, hle, hlen, hbytes, hoffset⟩
    refine ⟨_, Length.add_eq_ok.mpr ⟨hfits, rfl⟩, ?_⟩
    rw [if_pos ⟨hle, hlen⟩]
    exact congrArg Except.ok (View.ext hbytes.symm hoffset.symm)

theorem sliceFrom_eq_ok :
    v.sliceFrom start = .ok w ↔ v.offset + start < wordLimit ∧ start ≤ v.len ∧
      w.bytes = v.bytes.drop start ∧ w.offset = v.offset + start := by
  rw [sliceFrom, Outcome.bind_eq_ok]
  constructor
  · rintro ⟨offset, hoffset, h⟩
    obtain ⟨hfits, rfl⟩ := Length.add_eq_ok.mp hoffset
    split at h
    · rename_i hlen
      rw [← Except.ok.inj h]
      exact ⟨hfits, hlen, rfl, rfl⟩
    · cases h
  · rintro ⟨hfits, hlen, hbytes, hoffset⟩
    refine ⟨_, Length.add_eq_ok.mpr ⟨hfits, rfl⟩, ?_⟩
    rw [if_pos hlen]
    exact congrArg Except.ok (View.ext hbytes.symm hoffset.symm)

/-- A cut gives the bytes on its two sides, and is made wherever the window and the machine's words
allow it. -/
theorem splitAt_eq_ok {mid : Nat} {head tail : View} :
    v.splitAt mid = .ok (head, tail) ↔ v.offset + mid < wordLimit ∧ mid ≤ v.len ∧
      head.bytes = v.bytes.take mid ∧ head.offset = v.offset ∧
      tail.bytes = v.bytes.drop mid ∧ tail.offset = v.offset + mid := by
  rw [splitAt, Outcome.bind_eq_ok]
  constructor
  · rintro ⟨head', hhead, h⟩
    obtain ⟨tail', htail, h⟩ := Outcome.bind_eq_ok.mp h
    obtain ⟨rfl, rfl⟩ := Prod.mk.inj (Except.ok.inj h)
    obtain ⟨hfits, hlen, hbytes, hoffset⟩ := sliceFrom_eq_ok.mp htail
    obtain ⟨range, hrange, hslice⟩ := Outcome.bind_eq_ok.mp hhead
    obtain ⟨-, -, rfl⟩ := checkedRange_eq_ok.mp hrange
    obtain ⟨-, -, -, hheadBytes, hheadOffset⟩ := slice_eq_ok.mp hslice
    exact ⟨hfits, hlen, by simpa using hheadBytes, hheadOffset, hbytes, hoffset⟩
  · rintro ⟨hfits, hlen, hheadBytes, hheadOffset, hbytes, hoffset⟩
    have hhead : v.subspan 0 mid = .ok head :=
      Outcome.bind_eq_ok.mpr ⟨(0, 0 + mid), checkedRange_eq_ok.mpr ⟨by omega, by omega, rfl⟩,
        slice_eq_ok.mpr ⟨by omega, by omega, by omega, by simpa using hheadBytes, hheadOffset⟩⟩
    exact ⟨head, hhead,
      Outcome.bind_eq_ok.mpr ⟨tail, sliceFrom_eq_ok.mpr ⟨hfits, hlen, hbytes, hoffset⟩, rfl⟩⟩

end View

/-! ### The contract -/

/-- `x` takes `front` from a window, leaves `rest` and gives `a` just when `R front rest a`. -/
structure Reads (x : Step View α) (R : Bytes → Bytes → α → Prop) : Prop where
  /-- Only then: whatever the window was, its front was taken. -/
  sound : ∀ v a v', x v = (.ok a, v') → ∃ front, v.Splits front v' ∧ R front v'.bytes a
  /-- And always then, if the window can be read to its end. -/
  complete : ∀ v a v' front, v.Fits → v.Splits front v' → R front v'.bytes a → x v = (.ok a, v')

namespace Reads

variable {x : Step View α} {R S : Bytes → Bytes → α → Prop}

theorem congr (h : Reads x R) (hRS : ∀ front rest a, R front rest a ↔ S front rest a) :
    Reads x S where
  sound v a v' hx := by
    obtain ⟨front, hsplit, hR⟩ := h.sound v a v' hx
    exact ⟨front, hsplit, (hRS _ _ _).mp hR⟩
  complete v a v' front hv hsplit hS := h.complete v a v' front hv hsplit ((hRS _ _ _).mpr hS)

theorem lift (o : Outcome α) : Reads (Step.lift o) fun front _ a => front = [] ∧ o = .ok a where
  sound v a v' h := by
    obtain ⟨rfl, rfl⟩ := Prod.mk.inj h
    exact ⟨[], View.Splits.refl v, rfl, rfl⟩
  complete v a v' front _ hsplit := by
    rintro ⟨rfl, rfl⟩
    rw [hsplit.unique (View.Splits.refl v)]
    rfl

theorem pure (u : Unit) : Reads (Pure.pure u) fun front _ _ => front = [] :=
  (lift (.ok u)).congr fun front _ _ => by simp

/-- **Contracts compose.** What the second reader has before it is what the first leaves. -/
theorem bind {f : α → Step View β} {T : α → Bytes → Bytes → β → Prop} (hx : Reads x R)
    (hf : ∀ a, Reads (f a) (T a)) :
    Reads (x >>= f) fun front rest b => ∃ first second a, front = first ++ second ∧
      R first (second ++ rest) a ∧ T a second rest b where
  sound v b v'' h := by
    obtain ⟨a, v', ha, hb⟩ := Step.bind_eq_ok.mp h
    obtain ⟨first, hfirst, hR⟩ := hx.sound v a v' ha
    obtain ⟨second, hsecond, hT⟩ := (hf a).sound v' b v'' hb
    exact ⟨first ++ second, hfirst.trans hsecond, first, second, a, rfl,
      hsecond.bytes_eq ▸ hR, hT⟩
  complete v b v'' front hv hsplit := by
    rintro ⟨first, second, a, rfl, hR, hT⟩
    obtain ⟨v', hfirst, hv'⟩ := View.Splits.exists_of_bytes_eq
      (hsplit.bytes_eq.trans (List.append_assoc ..))
    obtain ⟨w, hsecond, hw⟩ := View.Splits.exists_of_bytes_eq hv'
    obtain rfl : w = v'' := (hfirst.trans hsecond).unique hsplit
    refine Step.bind_eq_ok.mpr ⟨a, v', hx.complete v a v' first hv hfirst (hv'.symm ▸ hR), ?_⟩
    exact (hf a).complete v' b w second (hfirst.fits hv) hsecond hT

/-- A reader followed by a conversion that takes nothing. -/
theorem bind_lift (hx : Reads x R) (g : α → Outcome β) :
    Reads (do let a ← x; Step.lift (g a)) fun front rest b =>
      ∃ a, R front rest a ∧ g a = .ok b := by
  refine (hx.bind fun a => lift (g a)).congr fun front rest b => ?_
  constructor
  · rintro ⟨first, second, a, rfl, hR, rfl, hg⟩
    exact ⟨a, by simpa using hR, hg⟩
  · rintro ⟨a, hR, hg⟩
    exact ⟨front, [], a, by simp, by simpa using hR, rfl, hg⟩

/-- Two readers, one after the other, for a pair of values. -/
theorem pair {y : Step View β} {T : Bytes → Bytes → β → Prop} (hx : Reads x R) (hy : Reads y T) :
    Reads (do let a ← x; let b ← y; return (a, b)) fun front rest p =>
      ∃ first second, front = first ++ second ∧ R first (second ++ rest) p.1 ∧
        T second rest p.2 := by
  have hpair : ∀ a : α, Reads (do let b ← y; return (a, b)) fun front rest p =>
      a = p.1 ∧ T front rest p.2 := by
    intro a
    refine (hy.bind_lift fun b => Except.ok (a, b)).congr fun front rest p => ?_
    constructor
    · rintro ⟨b, hb, hp⟩
      rw [← Except.ok.inj hp]
      exact ⟨rfl, hb⟩
    · rintro ⟨rfl, hb⟩
      exact ⟨p.2, hb, rfl⟩
  refine (hx.bind hpair).congr fun front rest p => ?_
  constructor
  · rintro ⟨first, second, a, rfl, hR, rfl, hT⟩
    exact ⟨first, second, rfl, hR, hT⟩
  · rintro ⟨first, second, rfl, hR, hT⟩
    exact ⟨first, second, p.1, rfl, hR, rfl, hT⟩

/-! ### Whole byte strings -/

variable {bytes : Bytes} {a : α}

theorem decodeWith_sound (h : Reads x R) (hok : Reader.decodeWith x bytes = .ok a) :
    R bytes [] a := by
  rw [Reader.decodeWith] at hok
  split at hok
  · rename_i b v hx
    obtain ⟨u, hfinish, rfl⟩ := Outcome.map_eq_ok.mp hok
    obtain ⟨front, hsplit, hR⟩ := h.sound _ _ _ hx
    have hempty : v.bytes = [] := by
      rw [Reader.finish] at hfinish
      split at hfinish
      · rename_i hempty
        exact View.isEmpty_iff.mp hempty
      · obtain ⟨actual, -, hrefuse⟩ := Outcome.bind_eq_ok.mp hfinish
        cases hrefuse
    have hbytes : bytes = front ++ v.bytes := hsplit.bytes_eq
    rw [hempty] at hR hbytes
    rw [hbytes, List.append_nil]
    exact hR
  · cases hok

theorem decodeWith_complete (h : Reads x R) (hlen : bytes.length < wordLimit) (hR : R bytes [] a) :
    Reader.decodeWith x bytes = .ok a := by
  obtain ⟨v, hsplit, hv⟩ := View.Splits.exists_of_bytes_eq
    (show (View.ofBytes bytes).bytes = bytes ++ [] from (List.append_nil bytes).symm)
  rw [Reader.decodeWith, h.complete _ a v bytes (View.fits_ofBytes hlen) hsplit (hv.symm ▸ hR)]
  have hempty : v.isEmpty := View.isEmpty_iff.mpr hv
  show (Reader.finish v).map (fun _ => a) = .ok a
  rw [Reader.finish, if_pos hempty]
  rfl

theorem decodeWith_iff (h : Reads x R) (hlen : bytes.length < wordLimit) :
    Reader.decodeWith x bytes = .ok a ↔ R bytes [] a :=
  ⟨h.decodeWith_sound, h.decodeWith_complete hlen⟩

end Reads

/-- Nothing may be left over, and what is left is counted. -/
theorem Reader.finish_eq {v : View} (hv : v.Fits) :
    finish v =
      if v.len = 0 then .ok () else refuse (.sizeMismatch v.offset (v.offset + v.len)) := by
  have htotal : Length.add v.offset v.len = .ok (v.offset + v.len) :=
    Length.add_eq_ok.mpr ⟨hv, rfl⟩
  rw [finish, htotal]
  exact if_congr beq_iff_eq rfl rfl

/-! ### Single fields -/

theorem View.reads_take (len : Nat) :
    Reads (take len) fun front _ bytes => front.length = len ∧ bytes = front where
  sound v bytes v' h := by
    rw [take] at h
    split at h
    · rename_i head tail hcut
      obtain ⟨hbytes, rfl⟩ := Prod.mk.inj h
      obtain ⟨-, hlen, hhead, -, htail, hoffset⟩ := splitAt_eq_ok.mp hcut
      have htake : (v.bytes.take len).length = len := by
        rw [List.length_take, ← v.len_eq]
        omega
      rw [← Except.ok.inj hbytes, hhead]
      refine ⟨v.bytes.take len, ⟨?_, by rw [hoffset, htake]⟩, htake, rfl⟩
      rw [htail, List.take_append_drop]
    · cases (Prod.mk.inj h).1
  complete v bytes v' front hv hsplit := by
    rintro ⟨rfl, rfl⟩
    have hlen := hsplit.len_eq
    have hfits : v.offset + v.len < wordLimit := hv
    have hcut : v.splitAt bytes.length = .ok (⟨bytes, v.offset, bytes.length, rfl⟩, v') := by
      refine splitAt_eq_ok.mpr ⟨by omega, by omega, ?_, rfl, ?_, hsplit.offset_eq⟩
      · rw [hsplit.bytes_eq, List.take_left]
      · rw [hsplit.bytes_eq, List.drop_left]
    rw [take, hcut]

theorem View.reads_takeRest :
    Reads takeRest fun front rest bytes => rest = [] ∧ bytes = front where
  sound v bytes v' h := by
    rw [takeRest] at h
    split at h
    · rename_i offset hoffset
      obtain ⟨hbytes, rfl⟩ := Prod.mk.inj h
      rw [← Except.ok.inj hbytes]
      refine ⟨v.bytes, ⟨(List.append_nil _).symm, ?_⟩, rfl, rfl⟩
      rw [← v.len_eq]
      exact (Length.add_eq_ok.mp hoffset).2
    · cases (Prod.mk.inj h).1
  complete v bytes v' front hv hsplit := by
    rintro ⟨hrest, rfl⟩
    have hbytes : v.bytes = bytes := by rw [hsplit.bytes_eq, hrest, List.append_nil]
    have hoffset : Length.add v.offset v.len = .ok (v.offset + v.len) :=
      Length.add_eq_ok.mpr ⟨hv, rfl⟩
    have hleft : (⟨[], v.offset + v.len, 0, rfl⟩ : View) = v' :=
      View.ext hrest.symm (by rw [hsplit.offset_eq, v.len_eq, hbytes])
    rw [takeRest, hoffset]
    show (Except.ok v.bytes, _) = _
    rw [hleft, hbytes]

namespace Reader

theorem reads_sized (c : Codec α) (len : Nat) :
    Reads (sized c len) fun front _ a => front.length = len ∧ c.decode front = .ok a :=
  ((View.reads_take len).bind_lift c.decode).congr fun front rest a => by
    simp

theorem reads_fixed (c : FixedCodec α) :
    Reads (fixed c) fun front _ a => front.length = c.size ∧ c.decode front = .ok a :=
  reads_sized c.toCodec c.size

theorem reads_rest (c : Codec α) :
    Reads (rest c) fun front rest a => rest = [] ∧ c.decode front = .ok a :=
  (View.reads_takeRest.bind_lift c.decode).congr fun front rest a => by
    simp

theorem reads_length (w : LengthWidth) :
    Reads (length w) fun front _ len => w.lengthBytes len = .ok front :=
  ((View.reads_take w.bytes).bind_lift w.recover).congr fun front rest len => by
    constructor
    · rintro ⟨bytes, ⟨-, rfl⟩, hlen⟩
      exact LengthWidth.recover_eq_ok_iff.mp hlen
    · intro hlen
      exact ⟨front, ⟨LengthWidth.length_lengthBytes hlen, rfl⟩,
        LengthWidth.recover_eq_ok_iff.mpr hlen⟩

/-- A field with its length in front of it is read from what framing it gives. -/
theorem reads_measured (w : LengthWidth) (c : Codec α) :
    Reads (measured w c) fun front _ a => ∃ own, w.frame own = .ok front ∧ c.decode own = .ok a :=
  ((reads_length w).bind fun len => reads_sized c len).congr fun front rest a => by
    constructor
    · rintro ⟨length, own, len, rfl, hlength, rfl, ha⟩
      exact ⟨own, by rw [LengthWidth.frame, hlength]; rfl, ha⟩
    · rintro ⟨own, hframe, ha⟩
      obtain ⟨length, hlength, hfront⟩ := Outcome.bind_eq_ok.mp hframe
      exact ⟨length, own, own.length, (Except.ok.inj hfront).symm, hlength, rfl, ha⟩

end Reader

end WireForm
