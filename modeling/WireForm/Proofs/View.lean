import WireForm.Proofs.Reading

/-!
# Views are honest windows

A view keeps its bytes and its offset side by side, and every cut moves them separately. So that a
view shows the bytes that its offset and its length say is a fact about how it came about: it holds
of the view of a whole byte string, and no cut ever breaks it, however deep the cuts are nested and
whatever numbers they are asked for.

The numbers are any at all. A cut whose end would be no machine word is refused like one that ends
behind the window, with the length that was asked for and the bytes that there were; so whether a
cut succeeds is a comparison of natural numbers.

## Main definitions

* `View.part`, `View.after` — some bytes of a window, and all behind some
* `View.WindowOf` — a view shows the bytes that it says it shows
* `View.CutFrom` — a view that came from a byte string by cuts
* `View.CutsExactly` — what every cut of a view comes to

## Main results

* `View.subspan_eq`, `View.splitAt_eq`, `View.take_eq`, `View.takeRest_eq` — the cuts
* `View.CutFrom.windowOf` — no cut breaks a window
* `views_are_honest_windows` — all of it
-/

namespace WireForm

theorem Length.saturatingAdd_zero {offset : Nat} (h : offset < wordLimit) :
    saturatingAdd offset 0 = offset := by
  rw [saturatingAdd]
  omega

namespace View

variable {bytes : Bytes} {v w : View} {start len mid : Nat}

/-! ### Parts of a window -/

/-- The window onto `len` bytes that begin `start` bytes into this one, as far as there are any. -/
def part (v : View) (start len : Nat) : View :=
  ⟨(v.bytes.drop start).take len, v.offset + start, min len (v.len - start), by
    rw [List.length_take, List.length_drop, v.len_eq]⟩

theorem len_sub_eq (v : View) (count : Nat) : v.len - count = (v.bytes.drop count).length := by
  rw [List.length_drop, v.len_eq]

/-- The window onto the bytes behind the first `count`. -/
def after (v : View) (count : Nat) : View :=
  ⟨v.bytes.drop count, v.offset + count, v.len - count, v.len_sub_eq count⟩

theorem len_part (h : start + len ≤ v.len) : (v.part start len).len = len := by
  show min len (v.len - start) = len
  omega

theorem Fits.part (hv : v.Fits) (h : start + len ≤ v.len) : (v.part start len).Fits := by
  have hfits : v.offset + v.len < wordLimit := hv
  have hlen := len_part h
  show v.offset + start + (v.part start len).len < wordLimit
  omega

theorem Fits.after {count : Nat} (hv : v.Fits) (h : count ≤ v.len) : (v.after count).Fits := by
  have hfits : v.offset + v.len < wordLimit := hv
  show v.offset + count + (v.len - count) < wordLimit
  omega

/-- A part of a part is a part, further on. -/
theorem part_part {start' len' : Nat} (h : start' + len' ≤ len) :
    (v.part start len).part start' len' = v.part (start + start') len' := by
  refine View.ext ?_ (Nat.add_assoc ..)
  show (((v.bytes.drop start).take len).drop start').take len' =
    (v.bytes.drop (start + start')).take len'
  rw [List.drop_take, List.take_take, List.drop_drop, Nat.min_eq_left (by omega)]

/-- To leave bytes out and then some more is to leave out both. -/
theorem after_after (v : View) (count count' : Nat) :
    (v.after count).after count' = v.after (count + count') :=
  View.ext List.drop_drop (Nat.add_assoc ..)

theorem after_zero (v : View) : v.after 0 = v := View.ext rfl rfl

/-! ### Windows of a byte string -/

/-- The view shows the bytes from its offset on, as many as its length says, and all of them are
there. -/
structure WindowOf (bytes : Bytes) (v : View) : Prop where
  /-- The window ends within the byte string. -/
  end_le : v.offset + v.len ≤ bytes.length
  /-- Its bytes are those between its ends. -/
  bytes_eq : v.bytes = (bytes.drop v.offset).take v.len

theorem windowOf_ofBytes (bytes : Bytes) : (ofBytes bytes).WindowOf bytes where
  end_le := Nat.le_of_eq (Nat.zero_add _)
  bytes_eq := List.take_length.symm

theorem WindowOf.fits (h : v.WindowOf bytes) (hword : bytes.length < wordLimit) : v.Fits :=
  Nat.lt_of_le_of_lt h.end_le hword

theorem WindowOf.part (h : v.WindowOf bytes) (hle : start + len ≤ v.len) :
    (v.part start len).WindowOf bytes := by
  have hend := h.end_le
  have hlen := len_part hle
  refine ⟨?_, ?_⟩
  · show v.offset + start + (v.part start len).len ≤ bytes.length
    omega
  · rw [hlen]
    show (v.bytes.drop start).take len = (bytes.drop (v.offset + start)).take len
    rw [h.bytes_eq, List.drop_take, List.take_take, List.drop_drop, Nat.min_eq_left (by omega)]

theorem WindowOf.after {count : Nat} (h : v.WindowOf bytes) (hle : count ≤ v.len) :
    (v.after count).WindowOf bytes := by
  have hend := h.end_le
  refine ⟨?_, ?_⟩
  · show v.offset + count + (v.len - count) ≤ bytes.length
    omega
  · show v.bytes.drop count = (bytes.drop (v.offset + count)).take (v.len - count)
    rw [h.bytes_eq, List.drop_take, List.drop_drop]

/-! ### Cuts -/

/-- A range of a window that fits the machine is granted just when it ends within the window. -/
theorem checkedRange_eq {offset windowLen : Nat} (hword : windowLen < wordLimit)
    (start len : Nat) :
    checkedRange offset windowLen start len =
      if start + len ≤ windowLen then .ok (start, start + len)
      else refuse (.bufferOverrun (Length.saturatingAdd offset start) len (windowLen - start)) := by
  by_cases hle : start + len ≤ windowLen
  · rw [if_pos hle]
    exact checkedRange_eq_ok.mpr ⟨Nat.lt_of_le_of_lt hle hword, hle, rfl⟩
  · rw [if_neg hle, checkedRange, Length.add?]
    by_cases hsum : start + len < wordLimit
    · rw [if_pos hsum]
      exact if_neg hle
    · rw [if_neg hsum]
      rfl

theorem subspan_eq (hv : v.Fits) (start len : Nat) :
    v.subspan start len =
      if start + len ≤ v.len then .ok (v.part start len)
      else refuse (.bufferOverrun (Length.saturatingAdd v.offset start) len (v.len - start)) := by
  have hfits : v.offset + v.len < wordLimit := hv
  rw [subspan, checkedRange_eq (by omega)]
  by_cases hle : start + len ≤ v.len
  · rw [if_pos hle, if_pos hle]
    refine slice_eq_ok.mpr ⟨by omega, by omega, hle, ?_, rfl⟩
    rw [Nat.add_sub_cancel_left]
    rfl
  · rw [if_neg hle, if_neg hle]
    rfl

theorem splitAt_eq (hv : v.Fits) (mid : Nat) :
    v.splitAt mid =
      if mid ≤ v.len then .ok (v.part 0 mid, v.after mid)
      else refuse (.bufferOverrun v.offset mid v.len) := by
  have hfits : v.offset + v.len < wordLimit := hv
  by_cases hle : mid ≤ v.len
  · rw [if_pos hle]
    exact splitAt_eq_ok.mpr ⟨by omega, hle, rfl, rfl, rfl, rfl⟩
  · rw [if_neg hle, splitAt, subspan_eq hv, if_neg (by omega),
      Length.saturatingAdd_zero (by omega)]
    rfl

/-- To take bytes is to cut the window there and to go on with the second part. -/
theorem take_eq (hv : v.Fits) (len : Nat) :
    take len v =
      if len ≤ v.len then (.ok (v.bytes.take len), v.after len)
      else (refuse (.bufferOverrun v.offset len v.len), v) := by
  rw [take, splitAt_eq hv]
  by_cases hle : len ≤ v.len
  · rw [if_pos hle, if_pos hle]
    rfl
  · rw [if_neg hle, if_neg hle]
    rfl

/-- A window with too few bytes is left as it was. -/
theorem take_of_lt (hv : v.Fits) (h : v.len < len) :
    take len v = (refuse (.bufferOverrun v.offset len v.len), v) := by
  rw [take_eq hv, if_neg (Nat.not_le.mpr h)]

theorem takeRest_eq (hv : v.Fits) : takeRest v = (.ok v.bytes, v.after v.len) := by
  have hoffset : Length.add v.offset v.len = .ok (v.offset + v.len) :=
    Length.add_eq_ok.mpr ⟨hv, rfl⟩
  have hnothing : v.bytes.drop v.len = [] := List.drop_eq_nil_of_le (Nat.le_of_eq v.len_eq.symm)
  rw [takeRest, hoffset]
  exact congrArg (Prod.mk _) (View.ext hnothing.symm rfl)

/-- A view that came from a byte string by cuts, of which some may have been refused. -/
inductive CutFrom (bytes : Bytes) : View → Prop where
  /-- The view of the whole. -/
  | whole : CutFrom bytes (ofBytes bytes)
  /-- A part that was granted. -/
  | subspan {v w : View} {start len : Nat} (h : CutFrom bytes v)
    (hcut : v.subspan start len = .ok w) : CutFrom bytes w
  /-- What is in front of a position. -/
  | head {v head tail : View} {mid : Nat} (h : CutFrom bytes v)
    (hcut : v.splitAt mid = .ok (head, tail)) : CutFrom bytes head
  /-- What is behind it. -/
  | tail {v head tail : View} {mid : Nat} (h : CutFrom bytes v)
    (hcut : v.splitAt mid = .ok (head, tail)) : CutFrom bytes tail
  /-- What is left when bytes were taken, or refused. -/
  | take {v : View} (h : CutFrom bytes v) (len : Nat) : CutFrom bytes (View.take len v).2
  /-- What is left when all were taken. -/
  | takeRest {v : View} (h : CutFrom bytes v) : CutFrom bytes (View.takeRest v).2

/-- **No cut breaks a window.** -/
theorem CutFrom.windowOf (hword : bytes.length < wordLimit) (h : v.CutFrom bytes) :
    v.WindowOf bytes := by
  induction h with
  | whole => exact windowOf_ofBytes bytes
  | subspan _ hcut ih =>
    rw [subspan_eq (ih.fits hword)] at hcut
    split at hcut
    · rename_i hle
      rw [← Except.ok.inj hcut]
      exact ih.part hle
    · cases hcut
  | @head v head tail mid _ hcut ih =>
    rw [splitAt_eq (ih.fits hword)] at hcut
    split at hcut
    · rename_i hle
      rw [← (Prod.mk.inj (Except.ok.inj hcut)).1]
      exact ih.part ((Nat.zero_add mid).symm ▸ hle)
    · cases hcut
  | tail _ hcut ih =>
    rw [splitAt_eq (ih.fits hword)] at hcut
    split at hcut
    · rename_i hle
      rw [← (Prod.mk.inj (Except.ok.inj hcut)).2]
      exact ih.after hle
    · cases hcut
  | take _ len ih =>
    rw [take_eq (ih.fits hword)]
    split
    · rename_i hle
      exact ih.after hle
    · exact ih
  | takeRest _ ih =>
    rw [takeRest_eq (ih.fits hword)]
    exact ih.after (Nat.le_refl _)

/-- What every cut of a view comes to, whatever numbers it is asked for. -/
structure CutsExactly (v : View) : Prop where
  /-- A part is granted just when it ends within the window, and begins so far behind its
  beginning. Otherwise the refusal has the length asked for and the bytes that there were from this
  position on. -/
  subspan : ∀ start len, v.subspan start len =
    if start + len ≤ v.len then .ok (v.part start len)
    else refuse (.bufferOverrun (Length.saturatingAdd v.offset start) len (v.len - start))
  /-- The part has the length asked for. -/
  len_part : ∀ start len, start + len ≤ v.len → (v.part start len).len = len
  /-- A part of a part is the part of the window that begins at the sum of the two positions. -/
  nested : ∀ start len w, v.subspan start len = .ok w → ∀ start' len', start' + len' ≤ len →
    w.subspan start' len' = v.subspan (start + start') len' ∧
      v.subspan (start + start') len' = .ok (v.part (start + start') len')
  /-- The window is cut in two at any position within it. -/
  splitAt : ∀ mid, v.splitAt mid =
    if mid ≤ v.len then .ok (v.part 0 mid, v.after mid)
    else refuse (.bufferOverrun v.offset mid v.len)
  /-- The two are next to each other, and their bytes those of the window. -/
  adjacent : ∀ mid head tail, v.splitAt mid = .ok (head, tail) →
    head.offset = v.offset ∧ tail.offset = head.offset + head.len ∧
      tail.offset + tail.len = v.offset + v.len ∧ head.bytes ++ tail.bytes = v.bytes
  /-- Bytes are taken by cutting the window in two and going on with the second. A refusal leaves
  the view as it was. -/
  take : ∀ len, View.take len v =
    match v.splitAt len with
    | .ok (head, tail) => (.ok head.bytes, tail)
    | .error fault => (.error fault, v)
  /-- All bytes are taken like any number of them. -/
  takeRest : View.takeRest v = View.take v.len v

theorem cutsExactly (hv : v.Fits) : v.CutsExactly where
  subspan := subspan_eq hv
  len_part _ _ := len_part
  nested start len w hcut start' len' hle := by
    rw [subspan_eq hv] at hcut
    split at hcut
    · rename_i houter
      have hinner : start + start' + len' ≤ v.len := by omega
      obtain rfl : w = v.part start len := (Except.ok.inj hcut).symm
      have hnested : v.subspan (start + start') len' = .ok (v.part (start + start') len') := by
        rw [subspan_eq hv, if_pos hinner]
      refine ⟨?_, hnested⟩
      rw [hnested, subspan_eq (hv.part houter), if_pos (by rwa [len_part houter]), part_part hle]
    · cases hcut
  splitAt := splitAt_eq hv
  adjacent mid head tail hcut := by
    rw [splitAt_eq hv] at hcut
    split at hcut
    · rename_i hle
      obtain ⟨rfl, rfl⟩ := Prod.mk.inj (Except.ok.inj hcut)
      have hlen : (v.part 0 mid).len = mid := len_part ((Nat.zero_add mid).symm ▸ hle)
      refine ⟨rfl, ?_, ?_, List.take_append_drop mid v.bytes⟩
      · rw [hlen]
        rfl
      · show v.offset + mid + (v.len - mid) = v.offset + v.len
        omega
    · cases hcut
  take _ := rfl
  takeRest := by
    rw [takeRest_eq hv, take_eq hv, if_pos (Nat.le_refl _), v.len_eq, List.take_length]

end View

/-- **Every view is an honest window.** Whichever cuts it came from, it shows the bytes of the
original between its offset and its end, which is not behind the end of the original, and every cut
of it comes to just what its offset, its length and the numbers asked for say. -/
theorem views_are_honest_windows {bytes : Bytes} (hword : bytes.length < wordLimit) {v : View}
    (h : v.CutFrom bytes) : v.WindowOf bytes ∧ v.CutsExactly :=
  ⟨h.windowOf hword, View.cutsExactly ((h.windowOf hword).fits hword)⟩

/-- From a part of a part two bytes are taken, more are refused, and so is a part whose end is no
machine word. -/
theorem views_are_honest_windows_at_nested :
    let bytes : Bytes := [1, 2, 3, 4, 5, 6, 7]
    let v : View := ⟨[5], 4, 1, rfl⟩
    v.CutFrom bytes ∧ v.WindowOf bytes ∧
      v.subspan 1 (wordLimit - 1) = refuse (.bufferOverrun 5 (wordLimit - 1) 0) ∧
      View.takeRest v = (.ok [5], ⟨[], 5, 0, rfl⟩) := by
  intro bytes v
  let outer : View := ⟨[2, 3, 4, 5, 6], 1, 5, rfl⟩
  let inner : View := ⟨[3, 4, 5], 2, 3, rfl⟩
  have houter : (View.ofBytes bytes).subspan 1 5 = .ok outer := rfl
  have hinner : outer.subspan 1 3 = .ok inner := rfl
  have hcut : inner.CutFrom bytes := .subspan (.subspan .whole houter) hinner
  have hv : v.CutFrom bytes := (hcut.take 2).take 2
  obtain ⟨hwindow, hcuts⟩ := views_are_honest_windows (by decide) hv
  exact ⟨hv, hwindow, hcuts.subspan 1 _, hcuts.takeRest⟩

end WireForm
