import Mathlib.Logic.Relation
import WireForm.Proofs.Runs

/-!
# Sequences drain their bytes

A sequence is read by a loop that asks only whether bytes are left. Nothing counts its turns, so it
ends because every turn takes bytes away, and it makes no more values than there are bytes for. A
value of no bytes would do neither; that is why such values are turned away in front of the loop.

The loop is described here without the bound on its turns that its definition has. A turn reads one
value; where no turn is possible, either nothing is left or the value in front is refused. Whatever
the codec of the values is, right or wrong, the outcome is the one that the loop comes to.

## Main definitions

* `LoopState`, `Turn`, `Stops` — the loop, turn by turn
* `ComesTo` — the outcome of the loop from some state on
* `Codec.fee` — the bytes that a value takes at least
* `Codec.Drains` — how sequences of values are read

## Main results

* `Turn.fee_add_len_le` — what a turn takes away
* `fee_mul_length_add_len_le` — what all turns together take away
* `comesTo_itemsFrom` — the bound on the number of turns is never met
* `sequences_drain_their_bytes`
-/

namespace WireForm

variable {α : Type}

/-! ### The loop -/

/-- Where the loop stands. -/
structure LoopState (α : Type) where
  /-- What is left to read. -/
  view : View
  /-- The values so far, the last one first. -/
  done : List α

/-- Nothing is read yet. -/
def LoopState.start (bytes : Bytes) : LoopState α := ⟨View.ofBytes bytes, []⟩

section Loop

variable (read : Step View α)

/-- One turn: bytes are left, and a value is read from them. -/
inductive Turn : LoopState α → LoopState α → Prop where
  | item {v v' : View} {done : List α} {a : α} (left : v.bytes ≠ [])
    (value : read v = (.ok a, v')) : Turn ⟨v, done⟩ ⟨v', a :: done⟩

/-- The loop stops with this outcome. -/
inductive Stops : LoopState α → Outcome (List α) → Prop where
  /-- Nothing is left. -/
  | drained {v : View} {done : List α} (empty : v.bytes = []) : Stops ⟨v, done⟩ (.ok done.reverse)
  /-- What is left does not begin with a value. -/
  | refused {v v' : View} {done : List α} {fault : Fault} (left : v.bytes ≠ [])
      (value : read v = (.error fault, v')) : Stops ⟨v, done⟩ (.error fault)

/-- After some number of turns the loop stops with this outcome. -/
def ComesTo (s : LoopState α) (outcome : Outcome (List α)) : Prop :=
  ∃ s', Relation.ReflTransGen (Turn read) s s' ∧ Stops read s' outcome

end Loop

section Loop

variable {read : Step View α} {s s' s'' : LoopState α} {outcome outcome' : Outcome (List α)}

theorem Turn.unique (h : Turn read s s') (h' : Turn read s s'') : s' = s'' := by
  obtain ⟨_, hread⟩ := h
  obtain ⟨_, hread'⟩ := h'
  rw [hread] at hread'
  cases hread'
  rfl

/-- Where the loop stops there is no turn. -/
theorem Stops.not_turn (h : Stops read s outcome) : ¬Turn read s s' := by
  rintro ⟨hleft, hread⟩
  cases h with
  | drained hempty => exact hleft hempty
  | refused _ hrefused =>
    rw [hread] at hrefused
    cases hrefused

theorem Stops.unique (h : Stops read s outcome) (h' : Stops read s outcome') :
    outcome = outcome' := by
  cases h with
  | drained hempty =>
    cases h' with
    | drained _ => rfl
    | refused hleft _ => exact absurd hempty hleft
  | refused hleft hread =>
    cases h' with
    | drained hempty => exact absurd hempty hleft
    | refused _ hread' =>
      rw [hread] at hread'
      cases hread'
      rfl

/-- The loop comes to one outcome only. -/
theorem ComesTo.unique (h : ComesTo read s outcome) (h' : ComesTo read s outcome') :
    outcome = outcome' := by
  obtain ⟨t, hturns, hstops⟩ := h
  obtain ⟨t', hturns', hstops'⟩ := h'
  induction hturns using Relation.ReflTransGen.head_induction_on with
  | refl =>
    rcases hturns'.cases_head with rfl | ⟨next, hturn, -⟩
    · exact hstops.unique hstops'
    · exact absurd hturn hstops.not_turn
  | head hturn _ ih =>
    rcases hturns'.cases_head with rfl | ⟨next, hturn', hrest⟩
    · exact absurd hturn hstops'.not_turn
    · obtain rfl := hturn.unique hturn'
      exact ih hrest

/-- A turn comes first. -/
theorem ComesTo.head (hturn : Turn read s s') (h : ComesTo read s' outcome) :
    ComesTo read s outcome := by
  obtain ⟨t, hturns, hstops⟩ := h
  exact ⟨t, .head hturn hturns, hstops⟩

/-- **The bound on the number of turns is never met**: if every turn takes bytes away, then as many
turns as there are bytes are enough to come to the end. -/
theorem comesTo_itemsFrom (hread : ∀ s s', Turn read s s' → s'.view.len < s.view.len) {fuel : Nat}
    {v : View} (hfuel : v.len ≤ fuel) (done : List α) :
    ComesTo read ⟨v, done⟩ (itemsFrom read fuel v done) := by
  induction fuel generalizing v done with
  | zero =>
    have hempty : v.bytes = [] := List.length_eq_zero_iff.mp (by rw [← v.len_eq]; omega)
    rw [itemsFrom_of_empty hempty]
    exact ⟨_, .refl, .drained hempty⟩
  | succ fuel ih =>
    by_cases hempty : v.bytes = []
    · rw [itemsFrom_of_empty hempty]
      exact ⟨_, .refl, .drained hempty⟩
    rcases hvalue : read v with ⟨fault | a, v'⟩
    · rw [itemsFrom, if_neg (mt View.isEmpty_iff.mp hempty)]
      simp only [hvalue]
      exact ⟨_, .refl, .refused hempty hvalue⟩
    · have hturn : Turn read ⟨v, done⟩ ⟨v', a :: done⟩ := .item hempty hvalue
      have hless : v'.len < v.len := hread _ _ hturn
      rw [itemsFrom_succ hempty hvalue]
      exact .head hturn (ih (by omega) (a :: done))

end Loop

/-! ### What values take -/

/-- The bytes that a value of a sequence takes at least: all of its own if their number is fixed,
and otherwise those of its length. -/
def Codec.fee (c : Codec α) (w : LengthWidth) : Nat := c.size?.getD w.bytes

section Fee

variable {c : Codec α} {w : LengthWidth} {s s' : LoopState α} {bytes : Bytes} {as : List α}

theorem Codec.fee_pos (h : c.size? ≠ some 0) : 0 < c.fee w := by
  rw [fee]
  cases hsize : c.size? with
  | none => exact w.bytes_pos
  | some size =>
    refine Nat.pos_of_ne_zero fun hzero => h ?_
    rw [hsize]
    exact congrArg some hzero

theorem Codec.ItemFrom.fee_le {front rest : Bytes} {a : α} (h : c.ItemFrom w front rest a) :
    c.fee w ≤ front.length := by
  obtain ⟨own, hstands, -⟩ := h
  rw [fee]
  cases hsize : c.size? with
  | some size =>
    obtain ⟨hlen, rfl⟩ := (standsAs_sized hsize).mp hstands
    exact hlen.ge
  | none =>
    rw [(LengthWidth.frame_eq_ok.mp ((standsAs_framed hsize).mp hstands)).2, List.length_append,
      BigEndian.length_encode]
    exact Nat.le_add_right ..

/-- A turn takes at least the fee of a value away. -/
theorem Turn.fee_add_len_le (h : Turn (Reader.field w c false) s s') :
    c.fee w + s'.view.len ≤ s.view.len := by
  obtain ⟨-, hvalue⟩ := h
  obtain ⟨front, hsplit, hitem⟩ := (Reader.reads_field w c false).sound _ _ _ hvalue
  have hfee := Codec.ItemFrom.fee_le hitem
  have hlen := hsplit.len_eq
  dsimp only
  omega

theorem Turn.len_lt (hsize : c.size? ≠ some 0) (h : Turn (Reader.field w c false) s s') :
    s'.view.len < s.view.len := by
  have hfee := h.fee_add_len_le
  have hpos := Codec.fee_pos (w := w) hsize
  omega

theorem Turn.length_done {read : Step View α} (h : Turn read s s') :
    s'.done.length = s.done.length + 1 := by
  obtain ⟨-, -⟩ := h
  rfl

/-- **Every value so far has paid its fee** with bytes that are not left any more. -/
theorem fee_mul_length_add_len_le
    (h : Relation.ReflTransGen (Turn (Reader.field w c false)) (LoopState.start bytes) s) :
    c.fee w * s.done.length + s.view.len ≤ bytes.length := by
  induction h with
  | refl =>
    show c.fee w * 0 + bytes.length ≤ bytes.length
    omega
  | tail _ hturn ih =>
    have hfee := hturn.fee_add_len_le
    rw [hturn.length_done, Nat.mul_add_one]
    omega

/-- There is no endless run of the loop, from wherever it starts. -/
theorem wellFounded_turn (hsize : c.size? ≠ some 0) :
    WellFounded fun s' s : LoopState α => Turn (Reader.field w c false) s s' :=
  Subrelation.wf (fun h => Turn.len_lt hsize h)
    (InvImage.wf (fun s : LoopState α => s.view.len) Nat.lt_wfRel.wf)

end Fee

/-! ### Sequences -/

/-- How a sequence of values with this codec is read. -/
structure Codec.Drains (c : Codec α) (w : LengthWidth) : Prop where
  /-- Of values of no bytes only the empty sequence is read, and no loop is entered. -/
  empty : c.size? = some 0 → ∀ bytes, decodeSequence w c bytes =
    if bytes = [] then .ok [] else refuse (.misaligned 0 bytes.length)
  /-- Where values have a fixed size, no loop is entered unless it divides the number of bytes. -/
  whole : ∀ size bytes, c.size? = some size → bytes.length % size ≠ 0 →
    decodeSequence w c bytes = refuse (.misaligned size bytes.length)
  /-- Every turn of the loop takes bytes away. -/
  turn : c.size? ≠ some 0 → ∀ s s', Turn (Reader.field w c false) s s' →
    s'.view.len < s.view.len
  /-- There is no endless run of it. -/
  wellFounded : c.size? ≠ some 0 →
    WellFounded fun s' s : LoopState α => Turn (Reader.field w c false) s s'
  /-- In all other cases the outcome is what the loop comes to, and nothing else is. -/
  outcome : ∀ bytes, c.size? ≠ some 0 →
    (∀ size, c.size? = some size → bytes.length % size = 0) →
    ∀ outcome, ComesTo (Reader.field w c false) (LoopState.start bytes) outcome ↔
      decodeSequence w c bytes = outcome
  /-- What is in hand at any time has been paid for, also where a value is refused later. -/
  paid : ∀ bytes s,
    Relation.ReflTransGen (Turn (Reader.field w c false)) (LoopState.start bytes) s →
    c.fee w * s.done.length + s.view.len ≤ bytes.length
  /-- A sequence is complete only where nothing is left. -/
  drained : ∀ bytes as, decodeSequence w c bytes = .ok as → ∃ s,
    Relation.ReflTransGen (Turn (Reader.field w c false)) (LoopState.start bytes) s ∧
      s.view.bytes = [] ∧ s.done.reverse = as
  /-- The bytes tell the number of values of a fixed size. -/
  count_sized : ∀ size bytes as, c.size? = some size → 0 < size →
    decodeSequence w c bytes = .ok as → as.length = bytes.length / size
  /-- Of values of no bytes there are none. -/
  count_empty : ∀ bytes as, c.size? = some 0 → decodeSequence w c bytes = .ok as → as = []
  /-- Of other values there are no more than lengths would fit, be the values empty or not. -/
  count_unsized : ∀ bytes as, c.size? = none → decodeSequence w c bytes = .ok as →
    as.length ≤ bytes.length / w.bytes

section Sequence

variable {c : Codec α} {w : LengthWidth} {size : Nat} {bytes : Bytes} {as : List α}

theorem decodeSequence_of_size_zero (hsize : c.size? = some 0) :
    decodeSequence w c bytes =
      if bytes = [] then .ok [] else refuse (.misaligned 0 bytes.length) := by
  split
  · rename_i hempty
    rw [hempty, decodeSequence, hsize]
    rfl
  · rename_i hne
    exact decodeSequence_misaligned hsize hne (.inl rfl)

theorem decodeSequence_of_ragged (hsize : c.size? = some size) (h : bytes.length % size ≠ 0) :
    decodeSequence w c bytes = refuse (.misaligned size bytes.length) := by
  refine decodeSequence_misaligned hsize ?_ (.inr h)
  rintro rfl
  exact h (Nat.zero_mod size)

/-- Where nothing is in the way, the loop decides. It is also what an empty sequence would be read
by, for which it is not entered. -/
theorem decodeSequence_eq_decodeItems (hsize : c.size? ≠ some 0)
    (hwhole : ∀ size, c.size? = some size → bytes.length % size = 0) :
    decodeSequence w c bytes = decodeItems w c bytes := by
  rw [decodeSequence]
  cases hc : c.size? with
  | none => rfl
  | some size =>
    have hpos : 0 < size := Nat.pos_of_ne_zero fun hzero => hsize (by rw [hc, hzero])
    by_cases hempty : bytes = []
    · have hloop : decodeItems w c bytes = .ok [] := itemsFrom_of_empty hempty
      rw [hloop, hempty]
      rfl
    · have hne : ¬bytes.isEmpty = true := mt List.isEmpty_iff.mp hempty
      simp only [if_neg hne, isRagged_of_pos hpos, hwhole size hc]
      rfl

theorem comesTo_decodeSequence (hsize : c.size? ≠ some 0)
    (hwhole : ∀ size, c.size? = some size → bytes.length % size = 0) :
    ComesTo (Reader.field w c false) (LoopState.start bytes) (decodeSequence w c bytes) := by
  rw [decodeSequence_eq_decodeItems hsize hwhole]
  exact comesTo_itemsFrom (fun _ _ => Turn.len_lt hsize) (Nat.le_refl _) []

/-- The loop is left with all values only where nothing is left to read. -/
theorem exists_drained (h : decodeSequence w c bytes = .ok as) : ∃ s,
    Relation.ReflTransGen (Turn (Reader.field w c false)) (LoopState.start bytes) s ∧
      s.view.bytes = [] ∧ s.done.reverse = as := by
  by_cases hsize : c.size? = some 0
  · rw [decodeSequence_of_size_zero hsize] at h
    split at h
    · rename_i hempty
      exact ⟨_, .refl, hempty, Except.ok.inj h⟩
    · cases h
  by_cases hwhole : ∀ size, c.size? = some size → bytes.length % size = 0
  · obtain ⟨s, hturns, hstops⟩ := comesTo_decodeSequence (w := w) hsize hwhole
    rw [h] at hstops
    cases hstops with
    | drained hempty => exact ⟨_, hturns, hempty, rfl⟩
  · obtain ⟨size, hc, hragged⟩ : ∃ size, c.size? = some size ∧ bytes.length % size ≠ 0 := by
      simpa using hwhole
    rw [decodeSequence_of_ragged hc hragged] at h
    cases h

theorem fee_mul_length_le (h : decodeSequence w c bytes = .ok as) :
    c.fee w * as.length ≤ bytes.length := by
  obtain ⟨s, hturns, -, rfl⟩ := exists_drained h
  have hpaid := fee_mul_length_add_len_le hturns
  rw [List.length_reverse]
  omega

end Sequence

/-- **A sequence drains its bytes, and every value in it takes some.** This is so for every codec
of the values, whatever size it claims and whatever it does with bytes, and for every width of
lengths. The loop that reads a sequence ends, because each of its turns takes bytes away; it ends
well only where all bytes are taken; and the number of values is what the bytes pay for, at the size
of a value or, where that is not fixed, at the size of a length. -/
theorem sequences_drain_their_bytes (c : Codec α) (w : LengthWidth) : c.Drains w where
  empty hsize _ := decodeSequence_of_size_zero hsize
  whole _ _ hsize hragged := decodeSequence_of_ragged hsize hragged
  turn hsize _ _ hturn := hturn.len_lt hsize
  wellFounded hsize := wellFounded_turn hsize
  outcome bytes hsize hwhole outcome := by
    have hcomes := comesTo_decodeSequence (w := w) hsize hwhole
    exact ⟨fun h => hcomes.unique h, fun h => h ▸ hcomes⟩
  paid _ _ hturns := fee_mul_length_add_len_le hturns
  drained _ _ h := exists_drained h
  count_sized size bytes as hsize hpos h := by
    have hlen := length_of_itemsFrom hsize (decodeSequence_sound h)
    rw [hlen, Nat.mul_div_cancel_left _ hpos]
  count_empty bytes as hsize h := by
    rw [decodeSequence_of_size_zero hsize] at h
    split at h
    · exact (Except.ok.inj h).symm
    · cases h
  count_unsized bytes as hsize h := by
    have hfee := fee_mul_length_le h
    rw [Codec.fee, hsize] at hfee
    exact (Nat.le_div_iff_mul_le w.bytes_pos).mpr (by rwa [Nat.mul_comm])

/-- Four bytes pay for two empty lists of bytes and one of a single byte, and would not for more
than four lists; no byte pays for a marker, since markers have none; and behind two empty lists the
loop stops at a third one that is cut short. -/
theorem sequences_drain_their_bytes_at_lists :
    (∃ lists, decodeSequence .one (listCodec byteCodec) [0, 1, 0x61, 0] = .ok lists ∧
      lists.length = 3 ∧ lists.length ≤ 4 / 1) ∧
    decodeSequence .one Register.Marker.shape.codec.toCodec [7] = refuse (.misaligned 0 1) ∧
    ComesTo (Reader.field .one (listCodec byteCodec) false) (LoopState.start [0, 0, 2, 5])
      (refuse (.bufferOverrun 3 2 1)) := by
  have hlists := sequences_drain_their_bytes (listCodec byteCodec) .one
  have hmarkers := sequences_drain_their_bytes Register.Marker.shape.codec.toCodec .one
  have hthree : decodeSequence .one (listCodec byteCodec) [0, 1, 0x61, 0] =
      .ok [[], [0x61], []] := rfl
  refine ⟨⟨_, hthree, rfl, hlists.count_unsized _ _ rfl hthree⟩, hmarkers.empty rfl [7], ?_⟩
  exact (hlists.outcome _ nofun nofun _).mpr rfl

end WireForm
