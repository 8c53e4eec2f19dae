import WireForm.Proofs.SequenceReading
import WireForm.Proofs.ShapeLaws
import WireForm.Proofs.View
import WireForm.Register.Shapes

/-!
# Decoding never crashes

Whatever bytes a decoder is given, it ends in a value or in a refusal. Every index it uses and every
sum it forms has to be kept in range by a check made before, and often by a check made elsewhere:
the header of a dynamic record has a length for each field, a run is cut into chunks only when these
are not empty, and an offset is a machine word because the window it belongs to lies in a byte
string that fits the machine.

The last of these is what the readers hand on to each other. A reader is safe when it does not crash
on a window that fits, and what it leaves fits again, by the reading contract. The contract also
says what the reader gave, which is how the later reader knows what the earlier check was for.

A conversion from a base type is not part of the library, and is taken not to crash on its own.

## Main definitions

* `Safe`, `Codec.Safe` — no byte string that fits the machine crashes the decoder
* `SafeReads` — no window that fits crashes the reader
* `FixedShape.ConvertsSafely`, `Shape.ConvertsSafely` — the conversions of a shape do not crash

## Main results

* `SafeReads.bind`, `SafeReads.decodeWith` — safe readers compose to safe decoders
* `Reader.safe_field`, `Reader.safe_dynamicHeader`, `itemsFrom_ne_crash` — the readers
* `Shape.safe` — the codec of a shape is safe
* `decoding_never_crashes` — the same with tuples, declared records and sequences
-/

namespace WireForm

variable {α β τ : Type}

/-- Decoding never crashes, whatever the bytes are, as long as there are no more than a machine can
have. -/
def Safe (decode : Bytes → Outcome α) : Prop :=
  ∀ bytes, bytes.length < wordLimit → decode bytes ≠ crash

/-- The codec decodes safely. -/
def Codec.Safe (c : Codec α) : Prop := WireForm.Safe c.decode

/-- `x` does not crash on any window that can be read to its end. -/
def SafeReads (x : Step View α) : Prop := ∀ v, v.Fits → x.eval v ≠ crash

/-! ### Cuts -/

namespace View

variable {v : View}

theorem Fits.len_lt (hv : v.Fits) : v.len < wordLimit := Nat.lt_of_le_of_lt (Nat.le_add_left ..) hv

/-- A window inside another one is cut out or refused, at every position and of every length. -/
theorem subspan_ne_crash (hv : v.Fits) (start len : Nat) : v.subspan start len ≠ crash := by
  rw [subspan_eq hv]
  split
  · exact Outcome.ok_ne_crash _
  · exact Outcome.refuse_ne_crash _

/-- A window that was cut out of one that fits can itself be read to its end. -/
theorem fits_of_subspan {w : View} {start len : Nat} (hv : v.Fits)
    (h : v.subspan start len = .ok w) : w.Fits := by
  rw [subspan_eq hv] at h
  split at h
  · rename_i hle
    rw [← Except.ok.inj h]
    exact hv.part hle
  · cases h

theorem splitAt_ne_crash (hv : v.Fits) (mid : Nat) : v.splitAt mid ≠ crash := by
  rw [splitAt_eq hv]
  split
  · exact Outcome.ok_ne_crash _
  · exact Outcome.refuse_ne_crash _

end View

/-! ### Safe readers -/

namespace SafeReads

variable {x : Step View α} {R : Bytes → Bytes → α → Prop}

theorem error_ne_crash {v v' : View} {fault : Fault} (hx : SafeReads x) (hv : v.Fits)
    (hrun : x v = (.error fault, v')) : (Except.error fault : Outcome β) ≠ crash := by
  intro hcrash
  obtain rfl := Except.error.inj hcrash
  exact hx v hv (congrArg Prod.fst hrun)

theorem lift {o : Outcome α} (h : o ≠ crash) : SafeReads (Step.lift o) := fun _ _ => h

theorem pure (a : α) : SafeReads (Pure.pure a) := fun _ _ => Outcome.ok_ne_crash a

/-- **Safe readers compose.** The second may rely on what the contract of the first says about the
value that was read, and on the bytes it came from being no more than a machine can have. -/
theorem bind {f : α → Step View β} (hreads : Reads x R) (hx : SafeReads x)
    (hf : ∀ front rest a, front.length < wordLimit → R front rest a → SafeReads (f a)) :
    SafeReads (x >>= f) := by
  intro v hv
  rcases hrun : x v with ⟨fault | a, v'⟩
  · rw [Step.eval, Step.bind_of_error hrun]
    exact hx.error_ne_crash hv hrun
  · obtain ⟨front, hsplit, hR⟩ := hreads.sound v a v' hrun
    rw [Step.eval, Step.bind_of_ok hrun]
    have hlen := hsplit.len_eq
    have hvlen := hv.len_lt
    exact hf front v'.bytes a (by omega) hR v' (hsplit.fits hv)

/-- Two safe readers, one after the other, for a pair of values. -/
theorem pair {y : Step View β} {S : Bytes → Bytes → β → Prop} (hreads : Reads x R)
    (hx : SafeReads x) (hreads' : Reads y S) (hy : SafeReads y) :
    SafeReads (do let a ← x; let b ← y; return (a, b)) :=
  bind hreads hx fun _ _ a _ _ => bind hreads' hy fun _ _ b _ _ => pure (a, b)

/-- A reader of bytes, followed by decoding them. -/
theorem bind_lift {x : Step View Bytes} {R : Bytes → Bytes → Bytes → Prop} {c : Codec α}
    (hreads : Reads x R) (hown : ∀ front rest bytes, R front rest bytes → bytes = front)
    (hx : SafeReads x) (hc : c.Safe) :
    SafeReads (do let bytes ← x; Step.lift (c.decode bytes)) := by
  refine bind hreads hx fun front rest bytes hlen hR => lift ?_
  obtain rfl := hown front rest bytes hR
  exact hc bytes hlen

end SafeReads

theorem View.safe_take (len : Nat) : SafeReads (take len) := by
  intro v hv
  rw [Step.eval, take_eq hv]
  split
  · exact Outcome.ok_ne_crash _
  · exact Outcome.refuse_ne_crash _

theorem View.safe_takeRest : SafeReads takeRest := by
  intro v hv
  rw [Step.eval, takeRest_eq hv]
  exact Outcome.ok_ne_crash _

/-- The number of bytes left over is reported, which is a machine word as well. -/
theorem Reader.finish_ne_crash {v : View} (hv : v.Fits) : finish v ≠ crash := by
  rw [finish_eq hv]
  split
  · exact Outcome.ok_ne_crash ()
  · exact Outcome.refuse_ne_crash _

/-- **A safe reader makes a safe decoder.** -/
theorem SafeReads.decodeWith {x : Step View α} {R : Bytes → Bytes → α → Prop} (hreads : Reads x R)
    (hx : SafeReads x) : Safe (Reader.decodeWith x) := by
  intro bytes hlen
  have hfits := View.fits_ofBytes hlen
  rw [Reader.decodeWith]
  split
  · rename_i a v hrun
    obtain ⟨front, hsplit, -⟩ := hreads.sound _ a v hrun
    exact Outcome.map_ne_crash (Reader.finish_ne_crash (hsplit.fits hfits)) _
  · rename_i fault v hrun
    exact hx.error_ne_crash hfits hrun

/-! ### Single fields -/

theorem expectLength_ne_crash (expected : Nat) (bytes : Bytes) :
    expectLength expected bytes ≠ crash := by
  rw [expectLength]
  split
  · exact Outcome.ok_ne_crash ()
  · exact Outcome.refuse_ne_crash _

theorem IntKind.codec_safe (k : IntKind) : k.codec.Safe := fun bytes _ =>
  Outcome.bind_ne_crash (expectLength_ne_crash _ bytes) fun _ => Outcome.ok_ne_crash _

theorem LengthWidth.recover_ne_crash (w : LengthWidth) {bytes : Bytes}
    (h : bytes.length < wordLimit) : w.recover bytes ≠ crash := by
  refine Outcome.bind_ne_crash (w.kind.codec_safe bytes h) fun n => ?_
  rw [w.toLength?_eq n]
  exact Outcome.ok_ne_crash _

namespace Reader

variable {c : Codec α}

theorem safe_sized (hc : c.Safe) (len : Nat) : SafeReads (sized c len) :=
  SafeReads.bind_lift (View.reads_take len) (fun _ _ _ h => h.2) (View.safe_take len) hc

theorem safe_rest (hc : c.Safe) : SafeReads (rest c) :=
  SafeReads.bind_lift View.reads_takeRest (fun _ _ _ h => h.2) View.safe_takeRest hc

theorem safe_length (w : LengthWidth) : SafeReads (length w) := by
  refine SafeReads.bind (View.reads_take w.bytes) (View.safe_take w.bytes) ?_
  rintro front rest bytes hlen ⟨-, rfl⟩
  exact SafeReads.lift (w.recover_ne_crash hlen)

theorem safe_measured (hc : c.Safe) (w : LengthWidth) : SafeReads (measured w c) :=
  SafeReads.bind (reads_length w) (safe_length w) fun _ _ len _ _ => safe_sized hc len

theorem safe_field (hc : c.Safe) (w : LengthWidth) (isLast : Bool) :
    SafeReads (field w c isLast) := by
  rw [field]
  split
  · exact safe_sized hc _
  · split
    · exact safe_rest hc
    · exact safe_measured hc w

/-! ### The header of a dynamic record -/

/-- A width is never zero, so a header can be cut into lengths. -/
theorem safe_recordedLengths (w : LengthWidth) (count : Nat) :
    SafeReads (do
      let header ← View.take (count * w.bytes)
      Step.lift (chunks w.bytes header >>= (·.mapM w.recover))) := by
  refine SafeReads.bind (View.reads_take _) (View.safe_take _) ?_
  rintro front rest header hlen ⟨hcount, rfl⟩
  obtain ⟨bs, rfl, hbs⟩ :=
    exists_flatten_eq count header (hcount.trans (Nat.mul_comm count w.bytes))
  rw [chunks_flatten w.bytes_pos hbs, Outcome.ok_bind]
  refine SafeReads.lift (Outcome.mapM_ne_crash fun b hb => w.recover_ne_crash ?_)
  exact Nat.lt_of_le_of_lt (List.sublist_flatten_of_mem hb).length_le hlen

theorem safe_lastLength (lens : List Nat) : SafeReads (lastLength lens) := by
  intro v hv
  rw [lastLength]
  split
  · exact Outcome.refuse_ne_crash _
  · rename_i total _
    rw [Step.eval, Step.get_bind]
    split
    · exact Outcome.refuse_ne_crash _
    · exact Outcome.ok_ne_crash _

theorem safe_dynamicHeader (w : LengthWidth) (count : Nat) :
    SafeReads (dynamicHeader w count) := by
  cases count with
  | zero => exact SafeReads.pure []
  | succ before =>
    by_cases hword : before * w.bytes < wordLimit
    · rw [dynamicHeader_succ w (if_pos hword)]
      exact SafeReads.bind (reads_recordedLengths w before) (safe_recordedLengths w before)
        fun _ _ lens _ _ => safe_lastLength lens
    · have hmul : Length.mul? before w.bytes = none := if_neg hword
      rw [dynamicHeader, hmul]
      exact SafeReads.lift (Outcome.refuse_ne_crash _)

end Reader

/-! ### Records -/

/-- All codecs are safe. -/
def FixedCodecs.Safe : {τ : Type} → FixedCodecs τ → Prop
  | _, .nil => True
  | _, .cons head tail => head.Safe ∧ tail.Safe

/-- All codecs are safe. -/
def Codecs.Safe : {τ : Type} → Codecs τ → Prop
  | _, .nil => True
  | _, .cons head tail => head.Safe ∧ tail.Safe

namespace Tuple

theorem safe_readFixed {fields : FixedCodecs τ} (h : fields.Safe) :
    SafeReads (readFixed fields) := by
  induction fields with
  | nil => exact SafeReads.pure ()
  | cons head tail ih =>
    exact SafeReads.pair (Reader.reads_fixed head) (Reader.safe_sized h.1 head.size)
      (reads_readFixed tail) (ih h.2)

theorem packed_safe {fields : FixedCodecs τ} (h : fields.Safe) :
    Safe (Tuple.packed fields).decode := by
  intro bytes hlen
  rw [PackedForm.decode]
  split
  · exact SafeReads.decodeWith (reads_readFixed fields) (safe_readFixed h) bytes hlen
  · exact Outcome.refuse_ne_crash _

theorem hybrid_safe {head : FixedCodecs τ} {last : Codec β} (hhead : head.Safe)
    (hlast : last.Safe) : Safe (Tuple.hybrid head last).decode :=
  SafeReads.decodeWith (reads_hybrid head last)
    (SafeReads.pair (reads_readFixed head) (safe_readFixed hhead) (Reader.reads_rest last)
      (Reader.safe_rest hlast))

/-- With a length for every field, no field looks for one that is not there. -/
theorem safe_readSized {fields : Codecs τ} (h : fields.Safe) {lens : List Nat} {index : Nat}
    (hlens : index + fields.count ≤ lens.length) : SafeReads (readSized lens index fields) := by
  induction fields generalizing index with
  | nil => exact SafeReads.pure ()
  | cons head tail ih =>
    rw [Codecs.count] at hlens
    have hlen : lens[index]? = some lens[index] := List.getElem?_eq_getElem (by omega)
    rw [readSized, hlen]
    exact SafeReads.pair (Reader.reads_sized head _) (Reader.safe_sized h.1 _)
      (reads_readSized lens (index + 1) tail) (ih h.2 (by omega))

theorem dynamic_safe {fields : Codecs τ} (h : fields.Safe) (w : LengthWidth) :
    Safe ((Tuple.dynamic fields).decode w) := by
  refine SafeReads.decodeWith (reads_dynamic w fields) ?_
  refine SafeReads.bind (Reader.reads_dynamicHeader w fields.count)
    (Reader.safe_dynamicHeader w fields.count) fun front rest lens _ hheader => ?_
  have hcount := Reader.length_of_headerFrom hheader
  exact safe_readSized h (by omega)

theorem safe_readMixed {fields : Codecs τ} (h : fields.Safe) (w : LengthWidth) :
    SafeReads (readMixed w fields) := by
  induction fields with
  | nil =>
    rw [readMixed]
    exact SafeReads.pure ()
  | cons head tail ih =>
    rw [readMixed_cons]
    exact SafeReads.pair (Reader.reads_field w head _) (Reader.safe_field h.1 w _)
      (reads_readMixed w tail) (ih h.2)

theorem mixed_safe {fields : Codecs τ} (h : fields.Safe) (w : LengthWidth) :
    Safe ((Tuple.mixed fields).decode w) :=
  SafeReads.decodeWith (reads_readMixed w fields) (safe_readMixed h w)

end Tuple

/-! ### Runs of values -/

/-- Every chunk is part of the bytes. -/
theorem decodeChunks_safe {decode : Bytes → Outcome α} (h : Safe decode) (size : Nat) :
    Safe (decodeChunks size decode) := by
  intro bytes hlen
  rcases Nat.eq_zero_or_pos size with rfl | hpos
  · cases bytes with
    | nil => exact Outcome.ok_ne_crash []
    | cons byte bytes => exact Outcome.refuse_ne_crash _
  by_cases hmod : bytes.length % size = 0
  · obtain ⟨bs, rfl, hbs⟩ := exists_flatten_eq (bytes.length / size) bytes
      (Nat.mul_div_cancel' (Nat.dvd_of_mod_eq_zero hmod)).symm
    rw [decodeChunks_flatten hpos decode hbs]
    refine Outcome.mapM_ne_crash fun b hb => h b ?_
    exact Nat.lt_of_le_of_lt (List.sublist_flatten_of_mem hb).length_le hlen
  · have hragged : isRagged size bytes = .ok true := by
      rw [isRagged_of_pos hpos]
      simp [hmod]
    rw [decodeChunks, hragged, Outcome.ok_bind, if_pos rfl]
    split
    · exact Outcome.ok_ne_crash []
    · exact Outcome.refuse_ne_crash _

theorem listCodec_safe {c : FixedCodec α} (hc : c.Lawful) (h : c.Safe) : (listCodec c).Safe := by
  intro bytes hlen
  show c.decodeAll bytes ≠ crash
  rw [hc.decodeAll_eq]
  exact decodeChunks_safe h c.size bytes hlen

theorem vectorCodec_safe {c : FixedCodec α} (hc : c.Lawful) (h : c.Safe) (n : Nat) :
    (vectorCodec c n).Safe := by
  intro bytes hlen
  show decodeVector c n bytes ≠ crash
  rw [decodeVector_eq]
  refine Outcome.bind_ne_crash (expectLength_ne_crash _ _) fun _ =>
    Outcome.bind_ne_crash ?_ fun values => ?_
  · split
    · refine Outcome.mapM_ne_crash fun b hb => h b ?_
      rw [List.eq_of_mem_replicate hb]
      exact Nat.lt_of_le_of_lt (Nat.zero_le _) hlen
    · exact listCodec_safe hc h bytes hlen
  · rw [vectorOfList]
    split
    · exact Outcome.ok_ne_crash _
    · exact Outcome.refuse_ne_crash _

/-- As many steps as there are bytes are enough, so the loop ends before its count does. -/
theorem itemsFrom_ne_crash {read : Step View α} {R : Bytes → Bytes → α → Prop}
    (hreads : Reads read R) (hread : SafeReads read)
    (hpos : ∀ front rest a, R front rest a → 0 < front.length) {fuel : Nat} {v : View} (hv : v.Fits)
    (hfuel : v.len ≤ fuel) (done : List α) : itemsFrom read fuel v done ≠ crash := by
  induction fuel generalizing v done with
  | zero =>
    rw [itemsFrom_of_empty (List.length_eq_zero_iff.mp (by rw [← v.len_eq]; omega))]
    exact Outcome.ok_ne_crash _
  | succ fuel ih =>
    by_cases hempty : v.bytes = []
    · rw [itemsFrom_of_empty hempty]
      exact Outcome.ok_ne_crash _
    rcases hrun : read v with ⟨fault | a, v'⟩
    · rw [itemsFrom, if_neg (mt View.isEmpty_iff.mp hempty)]
      simp only [hrun]
      exact hread.error_ne_crash hv hrun
    · obtain ⟨front, hsplit, hR⟩ := hreads.sound v a v' hrun
      have hlen := hsplit.len_eq
      have hfront := hpos front v'.bytes a hR
      rw [itemsFrom_succ hempty hrun]
      exact ih (hsplit.fits hv) (by omega) (a :: done)

theorem decodeItems_safe {c : Codec α} (h : c.Safe) (w : LengthWidth) (hsize : c.size? ≠ some 0) :
    Safe (decodeItems w c) := fun _ hlen =>
  itemsFrom_ne_crash (Reader.reads_field w c false) (Reader.safe_field h w false)
    (fun _ _ _ => Codec.ItemFrom.length_pos hsize) (View.fits_ofBytes hlen) (Nat.le_refl _) []

/-- Values of no bytes are refused before the loop could stand still on them. -/
theorem decodeSequence_safe {c : Codec α} (h : c.Safe) (w : LengthWidth) :
    Safe (decodeSequence w c) := by
  intro bytes hlen
  rw [decodeSequence]
  split
  · rename_i hsize
    exact decodeItems_safe h w (by simp [hsize]) bytes hlen
  · rename_i size hsize
    split
    · exact Outcome.ok_ne_crash []
    rcases Nat.eq_zero_or_pos size with rfl | hpos
    · exact Outcome.refuse_ne_crash _
    · rw [isRagged_of_pos hpos, Outcome.ok_bind]
      split
      · exact Outcome.refuse_ne_crash _
      · refine decodeItems_safe h w ?_ bytes hlen
        rw [hsize]
        exact fun hzero => Nat.ne_of_gt hpos (Option.some.inj hzero)

/-! ### Single values -/

/-- The one place where a byte is looked at by its index comes after the check of the length. -/
theorem byteCodec_safe : byteCodec.Safe := by
  intro bytes _
  refine Outcome.bind_ne_crash_of_ok (expectLength_ne_crash 1 bytes) fun _ hlen => ?_
  obtain ⟨byte, rfl⟩ := List.length_eq_one_iff.mp (expectLength_eq_ok.mp hlen)
  exact Outcome.ok_ne_crash byte

theorem boolCodec_safe : boolCodec.Safe := by
  intro bytes hlen
  refine Outcome.bind_ne_crash (byteCodec_safe bytes hlen) fun byte => ?_
  split
  · exact Outcome.ok_ne_crash false
  · split
    · exact Outcome.ok_ne_crash true
    · exact Outcome.refuse_ne_crash _

theorem Outcome.elim_refuse_ne_crash (o : Option α) (error : Error) :
    o.elim (refuse error) Except.ok ≠ crash := by
  cases o with
  | none => exact refuse_ne_crash error
  | some a => exact ok_ne_crash a

theorem charCodec_safe : charCodec.Safe := by
  intro bytes _
  rw [decode_charCodec]
  exact Outcome.bind_ne_crash (expectLength_ne_crash _ bytes) fun _ =>
    Outcome.elim_refuse_ne_crash _ _

theorem bitsCodec_safe (width : Nat) : (bitsCodec width).Safe := fun bytes _ =>
  Outcome.bind_ne_crash (expectLength_ne_crash width bytes) fun _ => Outcome.ok_ne_crash _

theorem Enumeration.codec_safe (e : Enumeration α) : e.codec.Safe := by
  intro bytes hlen
  rw [e.decode_codec]
  exact Outcome.bind_ne_crash (e.kind.codec_safe bytes hlen) fun _ =>
    Outcome.elim_refuse_ne_crash _ _

theorem textCodec_safe : textCodec.Safe := by
  intro bytes _
  show Utf8.decode bytes ≠ crash
  rw [Utf8.decode]
  split
  · exact Outcome.ok_ne_crash _
  · exact Outcome.refuse_ne_crash _

theorem Codec.Safe.imap {c : Codec β} (h : c.Safe) (iso : Iso α β) : (c.imap iso).Safe :=
  fun bytes hlen => Outcome.map_ne_crash (h bytes hlen) iso.back

theorem Codec.Safe.via {c : Codec β} (h : c.Safe) (toBase : α → β) {ofBase : β → Outcome α}
    (hback : ∀ b, ofBase b ≠ crash) : (c.via toBase ofBase).Safe :=
  fun bytes hlen => Outcome.bind_ne_crash (h bytes hlen) hback

/-! ### The same form for another type -/

section Forms

variable {w : LengthWidth} (iso : Iso α β)

/-- A codec that is another one, read as a different type, is as safe. -/
theorem Codec.Safe.of_eq_imap {c : Codec β} {d : Codec α} (h : c.Safe) (himap : d = c.imap iso) :
    d.Safe := by
  rw [himap]
  exact h.imap iso

theorem PackedForm.safe_imap {f : PackedForm β} (h : Safe f.decode) : Safe (f.imap iso).decode :=
  Codec.Safe.of_eq_imap iso (c := f.codec.toCodec) (d := (f.imap iso).codec.toCodec) h
    (congrArg FixedCodec.toCodec (codec_imap f iso))

theorem HybridForm.safe_imap {f : HybridForm β} (h : Safe f.decode) : Safe (f.imap iso).decode :=
  Codec.Safe.of_eq_imap iso (c := f.codec none) (d := (f.imap iso).codec none) h
    (codec_imap f iso none)

theorem DynamicForm.safe_imap {f : DynamicForm β} (h : Safe (f.decode w)) :
    Safe ((f.imap iso).decode w) :=
  Codec.Safe.of_eq_imap iso (c := f.codec w) (d := (f.imap iso).codec w) h (codec_imap f iso w)

theorem MixedForm.safe_imap {f : MixedForm β} (h : Safe (f.decode w)) :
    Safe ((f.imap iso).decode w) :=
  Codec.Safe.of_eq_imap iso (c := f.codec w none) (d := (f.imap iso).codec w none) h
    (codec_imap f iso w none)

end Forms

/-! ### Shapes -/

mutual

/-- Conversions from base values do not crash. -/
def FixedShape.ConvertsSafely {α : Type} : FixedShape α → Prop
  | .byte => True
  | .integer _ => True
  | .bool => True
  | .char => True
  | .binary32 => True
  | .binary64 => True
  | .vector elem _ => elem.ConvertsSafely
  | .enumeration _ => True
  | .packed fields _ => fields.ConvertSafely
  | .transparent inner _ => inner.ConvertsSafely
  | .via base _ ofBase => base.ConvertsSafely ∧ ∀ b, ofBase b ≠ crash

/-- The same of all fields. -/
def FixedShapes.ConvertSafely {τ : Type} : FixedShapes τ → Prop
  | .nil => True
  | .cons head tail => head.ConvertsSafely ∧ tail.ConvertSafely

end

mutual

/-- Conversions from base values do not crash. -/
def Shape.ConvertsSafely {α : Type} : Shape α → Prop
  | .fixed shape => shape.ConvertsSafely
  | .text => True
  | .natural => True
  | .integer => True
  | .list elem => elem.ConvertsSafely
  | .sequence _ elem => elem.ConvertsSafely
  | .hybrid head last _ => head.ConvertSafely ∧ last.ConvertsSafely
  | .dynamic _ fields _ => fields.ConvertSafely
  | .mixed _ fields _ => fields.ConvertSafely
  | .transparent inner _ => inner.ConvertsSafely
  | .via base _ ofBase => base.ConvertsSafely ∧ ∀ b, ofBase b ≠ crash

/-- The same of all fields. -/
def Shapes.ConvertSafely {τ : Type} : Shapes τ → Prop
  | .nil => True
  | .cons head tail => head.ConvertsSafely ∧ tail.ConvertSafely

end

mutual

theorem FixedShape.safe {α : Type} : (s : FixedShape α) → s.ConvertsSafely → s.codec.Safe
  | .byte, _ => byteCodec_safe
  | .integer kind, _ => kind.codec_safe
  | .bool, _ => boolCodec_safe
  | .char, _ => charCodec_safe
  | .binary32, _ => (bitsCodec_safe 4).imap Binary32.iso
  | .binary64, _ => (bitsCodec_safe 8).imap Binary64.iso
  | .vector elem n, h => vectorCodec_safe elem.lawful (elem.safe h) n
  | .enumeration e, _ => e.codec_safe
  | .packed fields iso, h => by
    rw [FixedShape.codec]
    exact PackedForm.safe_imap iso (Tuple.packed_safe (fields.safe h))
  | .transparent inner iso, h => (inner.safe h).imap iso
  | .via base toBase _, h => (base.safe h.1).via toBase h.2

theorem FixedShapes.safe {τ : Type} :
    (fields : FixedShapes τ) → fields.ConvertSafely → fields.codecs.Safe
  | .nil, _ => trivial
  | .cons head tail, h => ⟨head.safe h.1, tail.safe h.2⟩

end

mutual

theorem Shape.safe {α : Type} : (s : Shape α) → s.ConvertsSafely → s.codec.Safe
  | .fixed shape, h => shape.safe h
  | .text, _ => textCodec_safe
  | .natural, _ => fun _ _ => Outcome.ok_ne_crash _
  | .integer, _ => fun _ _ => Outcome.ok_ne_crash _
  | .list elem, h => listCodec_safe elem.lawful (elem.safe h)
  | .sequence width elem, h => decodeSequence_safe (elem.safe h) width
  | .hybrid head last iso, h => by
    rw [Shape.codec]
    exact HybridForm.safe_imap iso (Tuple.hybrid_safe (head.safe h.1) (last.safe h.2))
  | .dynamic width fields iso, h => by
    rw [Shape.codec]
    exact DynamicForm.safe_imap iso (Tuple.dynamic_safe (fields.safe h) width)
  | .mixed width fields iso, h => by
    rw [Shape.codec, Record.mixed_eq_tuple]
    exact MixedForm.safe_imap iso (Tuple.mixed_safe (fields.safe h) width)
  | .transparent inner iso, h => (inner.safe h).imap iso
  | .via base toBase _, h => (base.safe h.1).via toBase h.2

theorem Shapes.safe {τ : Type} : (fields : Shapes τ) → fields.ConvertSafely → fields.codecs.Safe
  | .nil, _ => trivial
  | .cons head tail, h => ⟨head.safe h.1, tail.safe h.2⟩

end

/-- **No bytes crash a decoder.** Of every shape whose conversions do not crash, and of tuples and
declared records in each of the four forms and in every width, and of sequences, any byte string
that fits the machine is decoded or refused. A window cut out of another, wherever that is
attempted, is refused or fits the machine too. -/
theorem decoding_never_crashes :
    (∀ {α : Type} (s : Shape α), s.ConvertsSafely → Safe s.codec.decode) ∧
    (∀ {τ : Type} (fields : FixedShapes τ), fields.ConvertSafely →
      Safe (Tuple.packed fields.codecs).decode ∧
      ∀ {α : Type} (iso : Iso α τ), Safe ((Tuple.packed fields.codecs).imap iso).decode) ∧
    (∀ {σ β : Type} (head : FixedShapes σ) (last : Shape β), head.ConvertSafely →
      last.ConvertsSafely → Safe (Tuple.hybrid head.codecs last.codec).decode ∧
      ∀ {α : Type} (iso : Iso α (σ × β)),
        Safe ((Tuple.hybrid head.codecs last.codec).imap iso).decode) ∧
    (∀ {τ : Type} (fields : Shapes τ) (w : LengthWidth), fields.ConvertSafely →
      Safe ((Tuple.dynamic fields.codecs).decode w) ∧
      ∀ {α : Type} (iso : Iso α τ), Safe (((Tuple.dynamic fields.codecs).imap iso).decode w)) ∧
    (∀ {τ : Type} (fields : Shapes τ) (w : LengthWidth), fields.ConvertSafely →
      Safe ((Tuple.mixed fields.codecs).decode w) ∧
      ∀ {α : Type} (iso : Iso α τ), Safe (((Record.mixed fields.codecs).imap iso).decode w)) ∧
    (∀ {α : Type} (elem : Shape α) (w : LengthWidth), elem.ConvertsSafely →
      Safe (decodeSequence w elem.codec)) ∧
    (∀ (v : View) (start len : Nat), v.Fits → v.subspan start len ≠ crash ∧
      v.splitAt start ≠ crash ∧ ∀ inner, v.subspan start len = .ok inner → inner.Fits) := by
  refine ⟨fun s h => s.safe h, fun fields h => ?_, fun head last hhead hlast => ?_,
    fun fields w h => ?_, fun fields w h => ?_, fun elem w h => ?_, fun v start len hv => ?_⟩
  · have hpacked := Tuple.packed_safe (fields.safe h)
    exact ⟨hpacked, fun iso => PackedForm.safe_imap iso hpacked⟩
  · have hhybrid := Tuple.hybrid_safe (head.safe hhead) (last.safe hlast)
    exact ⟨hhybrid, fun iso => HybridForm.safe_imap iso hhybrid⟩
  · have hdynamic := Tuple.dynamic_safe (fields.safe h) w
    exact ⟨hdynamic, fun iso => DynamicForm.safe_imap iso hdynamic⟩
  · have hmixed := Tuple.mixed_safe (fields.safe h) w
    rw [Record.mixed_eq_tuple]
    exact ⟨hmixed, fun iso => MixedForm.safe_imap iso hmixed⟩
  · exact decodeSequence_safe (elem.safe h) w
  · exact ⟨View.subspan_ne_crash hv start len, View.splitAt_ne_crash hv start,
      fun _ => View.fits_of_subspan hv⟩

/-- Two lengths that are each the greatest there is are refused when they are added up, and a share
over the whole when it is converted. -/
theorem decoding_never_crashes_at_huge_lengths :
    ((Tuple.dynamic (Shapes.cons .text (.cons .text (.cons .text .nil))).codecs).decode .eight
        (List.replicate 16 0xff) ≠ crash ∧
      (Tuple.dynamic (Shapes.cons .text (.cons .text (.cons .text .nil))).codecs).decode .eight
        (List.replicate 16 0xff) = refuse (.sizeOverflow .fieldLengths)) ∧
    Register.Percent.shape.codec.decode [200] ≠ crash := by
  obtain ⟨hshapes, -, -, hdynamic, -⟩ := decoding_never_crashes
  refine ⟨⟨?_, by decide +kernel⟩, ?_⟩
  · have htexts := hdynamic (.cons .text (.cons .text (.cons .text .nil))) .eight
      ⟨trivial, trivial, trivial, trivial⟩
    exact htexts.1 _ (by decide)
  · refine hshapes Register.Percent.shape ⟨trivial, fun n => ?_⟩ [200] (by decide)
    dsimp only
    split
    · exact Outcome.refuse_ne_crash _
    · exact Outcome.ok_ne_crash _

end WireForm
