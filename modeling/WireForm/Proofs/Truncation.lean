import WireForm.Proofs.Delimiting
import WireForm.Proofs.Runs

/-!
# Sequences, cut and put together

A sequence has neither a count nor a mark at its end, so a beginning of one may be a sequence as
well. It is one just when the cut is between two values, and then it is the sequence of the values
in front of the cut. Anywhere else the cut is noticed, in one of two ways. Values of a fixed size
have to fill the bytes, which is checked before any of them is read. Values of other sizes are read
one by one: each of them delimits itself, so the reader finds the places where the writer put one
value behind the other, and the value with the cut in it asks for more bytes than there are.

For the same reason sequences can be put together without being decoded.

## Main definitions

* `SequenceEnds` — how many bytes the sequence of some values takes
* `CutsBetween` — what becomes of the first so many bytes of a sequence
* `Codec.Tiles` — the values of a sequence and the bytes of each

## Main results

* `itemsFrom_cut` — the loop on a beginning of what it is made to read
* `CutsBetween.of_encode` — every cut through the encoding of a sequence
* `sequences_cut_between_values` — cuts and concatenations
-/

namespace WireForm

variable {α : Type} {w : LengthWidth} {c : Codec α}

/-! ### Reading on -/

/-- How a value stands in a sequence does not depend on what comes behind it. -/
theorem Codec.ItemFrom.congr_rest {front rest : Bytes} {a : α} (h : c.ItemFrom w front rest a)
    (other : Bytes) : c.ItemFrom w front other a := by
  obtain ⟨own, hstands, ha⟩ := h
  refine ⟨own, ?_, ha⟩
  cases hsize : c.size? with
  | some size => exact (standsAs_sized hsize).mpr ((standsAs_sized hsize).mp hstands)
  | none => exact (standsAs_framed hsize).mpr ((standsAs_framed hsize).mp hstands)

/-- Values behind values. -/
theorem itemsFrom_append {first second : Bytes} {as bs : List α}
    (has : ItemsFrom (c.ItemFrom w) first as) (hbs : ItemsFrom (c.ItemFrom w) second bs) :
    ItemsFrom (c.ItemFrom w) (first ++ second) (as ++ bs) := by
  induction as generalizing first with
  | nil =>
    obtain rfl : first = [] := has
    exact hbs
  | cons a as ih =>
    obtain ⟨front, rest, rfl, hfront, hrest⟩ := has
    exact ⟨front, rest ++ second, List.append_assoc .., hfront.congr_rest _, ih hrest⟩

/-- **The concatenation of two sequences is the sequence of the values of both.** -/
theorem decodeSequence_append (hsize : c.size? ≠ some 0) {first second : Bytes} {as bs : List α}
    (has : decodeSequence w c first = .ok as) (hbs : decodeSequence w c second = .ok bs)
    (hlen : (first ++ second).length < wordLimit) :
    decodeSequence w c (first ++ second) = .ok (as ++ bs) :=
  decodeSequence_complete hlen (Or.inr hsize)
    (itemsFrom_append (decodeSequence_sound has) (decodeSequence_sound hbs))

/-! ### Cuts -/

/-- On a beginning of what a loop is made to read, it either ends between two values, or overruns
at the end of what there is. -/
theorem itemsFrom_cut {read : Step View α} {fronts : List Bytes} {as : List α}
    (h : List.Forall₂ (Delimits read) fronts as) (hpos : ∀ front ∈ fronts, 0 < front.length)
    {fuel : Nat} {v : View} (hv : v.Fits) (hfuel : v.len ≤ fuel)
    (hbegins : v.bytes <+: fronts.flatten) (done : List α) :
    (∃ j ≤ fronts.length, v.bytes = (fronts.take j).flatten) ∨
      Overruns (itemsFrom read fuel v done) (v.offset + v.len) := by
  induction h generalizing fuel v done with
  | nil => exact Or.inl ⟨0, Nat.le_refl 0, List.prefix_nil.mp hbegins⟩
  | @cons front a fronts as hfront _ ih =>
    obtain ⟨hfrontPos, hpos⟩ := List.forall_mem_cons.mp hpos
    by_cases hempty : v.bytes = []
    · exact Or.inl ⟨0, Nat.zero_le _, hempty⟩
    have hlen : 0 < v.len := by
      rw [v.len_eq]
      exact List.length_pos_of_ne_nil hempty
    obtain ⟨fuel, rfl⟩ : ∃ n, fuel = n + 1 := ⟨fuel - 1, by omega⟩
    rcases cut_cases hbegins with ⟨hshort, hne⟩ | ⟨part, hbytes, hpart⟩
    · -- The cut is in the first value.
      right
      obtain ⟨fault, v', hfault, hoverrun⟩ := (hfront.cut v hv hshort hne).exists_apply
      rw [itemsFrom, if_neg (mt View.isEmpty_iff.mp hempty)]
      simp only [hfault]
      exact hoverrun
    · -- The first value is read, and the cut is somewhere behind it.
      obtain ⟨v', hsplit, rfl⟩ := View.Splits.exists_of_bytes_eq hbytes
      have hlens := hsplit.len_eq
      have hstop : v.offset + v.len = v'.offset + v'.len := by
        rw [hsplit.offset_eq, hlens, Nat.add_assoc]
      rw [itemsFrom_succ hempty (hfront.whole v v' hv hsplit), hstop]
      refine (ih hpos (hsplit.fits hv) (by omega) hpart (a :: done)).imp_left ?_
      rintro ⟨j, hj, hend⟩
      refine ⟨j + 1, Nat.succ_le_succ hj, ?_⟩
      rw [hbytes, hend, List.take_succ_cons, List.flatten_cons]

/-- The sequence of the values `as` takes `k` bytes. -/
def SequenceEnds (w : LengthWidth) (c : Codec α) (as : List α) (k : Nat) : Prop :=
  (appended (appendSequence w c as)).map List.length = .ok k

/-- What becomes of the first `k` bytes of the sequence `bytes` of the values `as`. -/
structure CutsBetween (w : LengthWidth) (c : Codec α) (as : List α) (bytes : Bytes) (k : Nat) :
    Prop where
  /-- Where the first `j` values end, these are what is decoded. -/
  whole : ∀ j ≤ as.length, SequenceEnds w c (as.take j) k →
    decodeSequence w c (bytes.take k) = .ok (as.take j)
  /-- Nothing is decoded but where some values end. -/
  only : (∃ bs, decodeSequence w c (bytes.take k) = .ok bs) ↔
    ∃ j ≤ as.length, SequenceEnds w c (as.take j) k
  /-- Elsewhere, a value of no fixed size has too few bytes. -/
  unsized : (¬∃ j ≤ as.length, SequenceEnds w c (as.take j) k) → c.size? = none →
    Overruns (decodeSequence w c (bytes.take k)) k
  /-- And values of a fixed size do not fill the bytes. -/
  sized : (¬∃ j ≤ as.length, SequenceEnds w c (as.take j) k) → ∀ size, c.size? = some size →
    decodeSequence w c (bytes.take k) = refuse (.misaligned size k)

section Cuts

variable {as : List α} {fronts : List Bytes} {bytes : Bytes} {k : Nat}

/-- The values of a sequence and the bytes of each. -/
def Codec.Tiles (c : Codec α) (w : LengthWidth) (fronts : List Bytes) (as : List α) : Prop :=
  List.Forall₂ (fun front a => (c.fieldEncoding a).written w false = .ok front) fronts as

theorem appended_sequence_eq_ok (hc : c.Lawful) :
    appended (appendSequence w c as) = .ok bytes ↔
      ∃ fronts : List Bytes, bytes = fronts.flatten ∧ c.Tiles w fronts as := by
  rw [(appends_sequence hc as).appended_eq, joinFields_eq_ok]
  simp only [List.forall₂_map_right_iff, Codec.Tiles]

namespace Codec.Tiles

/-- The first values have the first bytes. -/
theorem take (h : c.Tiles w fronts as) (j : Nat) : c.Tiles w (fronts.take j) (as.take j) :=
  List.forall₂_take j h

/-- What a recovered value is written as it is read from, whatever comes behind it. -/
theorem itemFrom (h : c.Tiles w fronts as) (hc : c.Lawful) (has : ∀ a ∈ as, c.Recovers a)
    (hlen : fronts.flatten.length < wordLimit) :
    List.Forall₂ (fun front a => c.ItemFrom w front [] a) fronts as := by
  induction h with
  | nil => exact .nil
  | @cons front a fronts as hfront _ ih =>
    obtain ⟨ha, has⟩ := List.forall_mem_cons.mp has
    rw [List.flatten_cons, List.length_append] at hlen
    exact .cons (hc.itemFrom ha hfront (by omega) []) (ih has (by omega))

/-- Where the first `j` values end, a sequence ends. -/
theorem exists_sequenceEnds (h : c.Tiles w fronts as) (hc : c.Lawful) {j : Nat}
    (hj : j ≤ fronts.length) (hlast : (fronts.take j).flatten.length = k) :
    ∃ j ≤ as.length, SequenceEnds w c (as.take j) k := by
  have henc : appended (appendSequence w c (as.take j)) = .ok (fronts.take j).flatten :=
    (appended_sequence_eq_ok hc).mpr ⟨fronts.take j, rfl, h.take j⟩
  exact ⟨j, hj.trans h.length_eq.le, Outcome.map_eq_ok.mpr ⟨_, henc, hlast⟩⟩

end Codec.Tiles

theorem Codec.ItemFrom.length_eq {size : Nat} (hsize : c.size? = some size) {front rest : Bytes}
    {a : α} (h : c.ItemFrom w front rest a) : front.length = size := by
  obtain ⟨own, hstands, -⟩ := h
  obtain ⟨hlen, rfl⟩ := (standsAs_sized hsize).mp hstands
  exact hlen

/-- Where some values end, these are decoded. -/
theorem decodeSequence_of_sequenceEnds (hc : c.Lawful) (hsize : c.size? ≠ some 0)
    (has : ∀ a ∈ as, c.Recovers a) (henc : appended (appendSequence w c as) = .ok bytes)
    (hlen : bytes.length < wordLimit) {j : Nat} (hends : SequenceEnds w c (as.take j) k) :
    decodeSequence w c (bytes.take k) = .ok (as.take j) := by
  obtain ⟨front, hfront, rfl⟩ := Outcome.map_eq_ok.mp hends
  have hjoin : appended (appendSequence w c (as.take j ++ as.drop j)) = .ok bytes := by
    rwa [List.take_append_drop]
  rw [(appends_sequence hc _).appended_eq, List.map_append, joinFields_append,
    ← (appends_sequence hc (as.take j)).appended_eq, hfront, Outcome.ok_bind] at hjoin
  obtain ⟨back, -, hbytes⟩ := Outcome.bind_eq_ok.mp hjoin
  obtain rfl : front ++ back = bytes := Except.ok.inj hbytes
  rw [List.length_append] at hlen
  rw [List.take_left]
  have hrecovers : ∀ a ∈ as.take j, c.Recovers a := fun a ha => has a (List.mem_of_mem_take ha)
  exact sequenceCodec_recovers hc w hrecovers (Or.inr hsize) front hfront (by omega)

/-- A cut through values of no fixed size is between two of them, or is noticed by the value it goes
through. -/
theorem sequenceEnds_or_overruns (hc : c.Lawful) (hsize : c.size? = none)
    (has : ∀ a ∈ as, c.Recovers a) (henc : appended (appendSequence w c as) = .ok bytes)
    (hlen : bytes.length < wordLimit) (hk : k ≤ bytes.length) :
    (∃ j ≤ as.length, SequenceEnds w c (as.take j) k) ∨
      Overruns (decodeSequence w c (bytes.take k)) k := by
  obtain ⟨fronts, rfl, htiles⟩ := (appended_sequence_eq_ok hc).mp henc
  have hitems := htiles.itemFrom hc has hlen
  have hdelimits : List.Forall₂ (Delimits (Reader.field w c false)) fronts as :=
    hitems.imp fun _ _ => Codec.ItemFrom.delimits
  have hpos : ∀ front ∈ fronts, 0 < front.length :=
    forall_mem_of_forall₂ hitems fun _ _ hitem => hitem.length_pos (by simp [hsize])
  have hcut : (fronts.flatten.take k).length = k := List.length_take_of_le hk
  have hfits : (View.ofBytes (fronts.flatten.take k)).Fits := View.fits_ofBytes (by omega)
  have hdecode : decodeSequence w c (fronts.flatten.take k) =
      itemsFrom (Reader.field w c false) (fronts.flatten.take k).length
        (View.ofBytes (fronts.flatten.take k)) [] := by
    rw [decodeSequence, hsize]
    rfl
  rw [hdecode]
  rcases itemsFrom_cut hdelimits hpos hfits (Nat.le_refl _) (List.take_prefix k _) [] with
    ⟨j, hj, hend⟩ | hoverrun
  · have hlast : (fronts.take j).flatten.length = k := by
      rw [← hend]
      exact hcut
    exact Or.inl (htiles.exists_sequenceEnds hc hj hlast)
  · right
    have hstop : (View.ofBytes (fronts.flatten.take k)).offset +
        (View.ofBytes (fronts.flatten.take k)).len = k := (Nat.zero_add _).trans hcut
    rwa [hstop] at hoverrun

/-- A cut through values of a fixed size is between two of them, or leaves bytes over. -/
theorem sequenceEnds_or_misaligned (hc : c.Lawful) {size : Nat} (hsize : c.size? = some size)
    (hpos : 0 < size) (has : ∀ a ∈ as, c.Recovers a)
    (henc : appended (appendSequence w c as) = .ok bytes) (hlen : bytes.length < wordLimit)
    (hk : k ≤ bytes.length) :
    (∃ j ≤ as.length, SequenceEnds w c (as.take j) k) ∨
      decodeSequence w c (bytes.take k) = refuse (.misaligned size k) := by
  obtain ⟨fronts, rfl, htiles⟩ := (appended_sequence_eq_ok hc).mp henc
  have hsizes : ∀ front ∈ fronts, front.length = size :=
    forall_mem_of_forall₂ (htiles.itemFrom hc has hlen) fun _ _ hitem => hitem.length_eq hsize
  by_cases hmod : k % size = 0
  · left
    have hwhole : size * (k / size) = k := Nat.mul_div_cancel' (Nat.dvd_of_mod_eq_zero hmod)
    have hcount : k / size ≤ fronts.length := by
      rw [length_flatten_of_forall hsizes, ← hwhole] at hk
      exact Nat.le_of_mul_le_mul_left hk hpos
    have hlast : (fronts.take (k / size)).flatten.length = k := by
      rw [length_flatten_of_forall fun front hfront => hsizes front (List.mem_of_mem_take hfront),
        List.length_take_of_le hcount, hwhole]
    exact htiles.exists_sequenceEnds hc hcount hlast
  · right
    have hcut : (fronts.flatten.take k).length = k := List.length_take_of_le hk
    have hne : fronts.flatten.take k ≠ [] := by
      intro hnil
      rw [hnil, List.length_nil] at hcut
      exact hmod (by rw [← hcut, Nat.zero_mod])
    have hragged : size = 0 ∨ (fronts.flatten.take k).length % size ≠ 0 := Or.inr (by rwa [hcut])
    rw [decodeSequence_misaligned hsize hne hragged, hcut]

/-- **A cut through a sequence is between two values, or it is noticed.** -/
theorem CutsBetween.of_encode (hc : c.Lawful) (hsize : c.size? ≠ some 0)
    (has : ∀ a ∈ as, c.Recovers a) (henc : appended (appendSequence w c as) = .ok bytes)
    (hlen : bytes.length < wordLimit) (hk : k ≤ bytes.length) : CutsBetween w c as bytes k := by
  have hwhole : ∀ j, SequenceEnds w c (as.take j) k →
      decodeSequence w c (bytes.take k) = .ok (as.take j) := fun _ =>
    decodeSequence_of_sequenceEnds hc hsize has henc hlen
  have hunsized : (¬∃ j ≤ as.length, SequenceEnds w c (as.take j) k) → c.size? = none →
      Overruns (decodeSequence w c (bytes.take k)) k := fun hends hnone =>
    (sequenceEnds_or_overruns hc hnone has henc hlen hk).resolve_left hends
  have hsized : (¬∃ j ≤ as.length, SequenceEnds w c (as.take j) k) → ∀ size, c.size? = some size →
      decodeSequence w c (bytes.take k) = refuse (.misaligned size k) := by
    intro hends size hsome
    have hpos : 0 < size := Nat.pos_of_ne_zero fun hzero => hsize (by rw [hsome, hzero])
    exact (sequenceEnds_or_misaligned hc hsome hpos has henc hlen hk).resolve_left hends
  refine ⟨fun j _ => hwhole j, ⟨?_, ?_⟩, hunsized, hsized⟩
  · rintro ⟨bs, hok⟩
    by_contra hends
    cases hsome : c.size? with
    | none => exact (hunsized hends hsome).ne_ok bs hok
    | some size =>
      rw [hsized hends size hsome] at hok
      cases hok
  · rintro ⟨j, -, hends⟩
    exact ⟨as.take j, hwhole j hends⟩

end Cuts

/-- **Sequences can be cut between values only, and put together anywhere.** Of the sequence of some
values the first bytes are a sequence just where some of the values end, and then of these; any
other cut is refused, for missing bytes or for bytes left over. Two sequences, one behind the other,
are the sequence of the values of both. -/
theorem sequences_cut_between_values (hc : c.Lawful) (hsize : c.size? ≠ some 0) (w : LengthWidth) :
    (∀ (as : List α) (bytes : Bytes), (∀ a ∈ as, c.Recovers a) →
      appended (appendSequence w c as) = .ok bytes → bytes.length < wordLimit →
      ∀ k ≤ bytes.length, CutsBetween w c as bytes k) ∧
    (∀ (first second : Bytes) (as bs : List α), decodeSequence w c first = .ok as →
      decodeSequence w c second = .ok bs → (first ++ second).length < wordLimit →
      decodeSequence w c (first ++ second) = .ok (as ++ bs)) ∧
    (∀ as bs : List α, appended (appendSequence w c (as ++ bs)) = (do
      let front ← appended (appendSequence w c as)
      let back ← appended (appendSequence w c bs)
      return front ++ back)) := by
  refine ⟨fun as bytes has henc hlen k hk => .of_encode hc hsize has henc hlen hk,
    fun first second as bs has hbs hlen => decodeSequence_append hsize has hbs hlen, ?_⟩
  intro as bs
  rw [(appends_sequence hc _).appended_eq, (appends_sequence hc _).appended_eq,
    (appends_sequence hc _).appended_eq, List.map_append]
  exact joinFields_append _ _

/-- Two texts cut behind the first and inside it, two numbers cut inside the second, and two
sequences of one text each. -/
theorem sequences_cut_between_values_at_texts :
    decodeSequence .one textCodec ([2, 97, 98, 1, 99].take 3) = .ok ["ab"] ∧
    Overruns (decodeSequence .one textCodec ([2, 97, 98, 1, 99].take 2)) 2 ∧
    decodeSequence .one Register.u16.codec.toCodec ([0, 1, 0, 2].take 3) =
      refuse (.misaligned 2 3) ∧
    decodeSequence .one textCodec ([2, 97, 98] ++ [1, 99]) = .ok (["ab"] ++ ["c"]) := by
  obtain ⟨htexts, hconcat, -⟩ :=
    sequences_cut_between_values (Shape.lawful .text) (by decide) .one
  obtain ⟨hnumbers, -⟩ :=
    sequences_cut_between_values (Shape.lawful (.fixed Register.u16)) (by decide) .one
  have hcut := htexts ["ab", "c"] [2, 97, 98, 1, 99] (fun s _ => textCodec_recovers s)
    (by decide +kernel) (by decide)
  have hcutNumbers := hnumbers [⟨1, by decide⟩, ⟨2, by decide⟩] [0, 1, 0, 2]
    (fun n _ => Shape.recovers (.fixed Register.u16) n trivial) (by decide +kernel) (by decide)
  have hinside : ¬∃ j ≤ 2, SequenceEnds .one textCodec (["ab", "c"].take j) 2 := by
    simp only [SequenceEnds]
    decide +kernel
  have hodd : ¬∃ j ≤ 2, SequenceEnds .one Register.u16.codec.toCodec
      (([⟨1, by decide⟩, ⟨2, by decide⟩] : List Register.U16).take j) 3 := by
    simp only [SequenceEnds]
    decide +kernel
  refine ⟨(hcut 3 (by decide)).whole 1 (by decide) (by rw [SequenceEnds]; decide +kernel),
    (hcut 2 (by decide)).unsized hinside rfl, (hcutNumbers 3 (by decide)).sized hodd 2 rfl, ?_⟩
  exact hconcat _ _ _ _ (by decide +kernel) (by decide +kernel) (by decide)

end WireForm
