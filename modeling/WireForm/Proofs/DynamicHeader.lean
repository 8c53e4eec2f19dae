import WireForm.Proofs.RecordReading
import WireForm.Proofs.Rollback
import WireForm.Proofs.View

/-!
# The header of a dynamic record, on every input

A dynamic record begins with the lengths of all fields but the last, and the last field is what the
others leave. The header is read before any field, with numbers in it that anybody may have put
there, and four things can be wrong with them: the header is longer than a length can be, or longer
than what there is to read, or the lengths add up to more than a length can be, or to more than is
left. They are looked for in this order, each is reported with the numbers that were compared, and
when none of them is wrong the lengths fit exactly: the fields can be taken one after the other by
these lengths, and then nothing is left.

The sum is built up length by length, but whether it overflows depends on the whole of it only,
since a part is never greater.

## Main definitions

* `LengthWidth.lengthsIn` — the lengths that a byte string begins with
* `LengthWidth.dynamicRecord` — encoded fields behind the lengths of all but the last
* `View.behind` — the window that is left behind so many bytes
* `Codecs.decodeParts` — each field decoded from a part of its own

## Main results

* `Writer.dynamic_of_le`, `Writer.dynamic_of_lt` — writing, by whether the lengths fit their width
* `Reader.dynamicHeader_eq` — reading a header, check by check
* `View.take_each`, `Tuple.readSized_eq` — taking the fields by the lengths
* `dynamic_headers_are_exact` — all of it
-/

namespace WireForm

variable {τ : Type}

/-! ### The lengths in a header -/

namespace LengthWidth

variable {w : LengthWidth}

/-- The lengths that a byte string begins with, so many of them. -/
def lengthsIn (w : LengthWidth) : Nat → Bytes → List Nat
  | 0, _ => []
  | count + 1, bytes =>
    BigEndian.decode (bytes.take w.bytes) :: w.lengthsIn count (bytes.drop w.bytes)

/-- Encoded fields behind the lengths of all of them but the last. -/
def dynamicRecord (w : LengthWidth) (fields : List Bytes) : Bytes :=
  (fields.dropLast.map fun field => BigEndian.encode w.bytes field.length).flatten ++ fields.flatten

theorem length_lengthsIn (w : LengthWidth) (count : Nat) (bytes : Bytes) :
    (w.lengthsIn count bytes).length = count := by
  induction count generalizing bytes with
  | zero => rfl
  | succ count ih => rw [lengthsIn, List.length_cons, ih]

/-- Bytes behind the lengths do not matter. -/
theorem lengthsIn_take (w : LengthWidth) (count : Nat) (bytes : Bytes) :
    w.lengthsIn count (bytes.take (count * w.bytes)) = w.lengthsIn count bytes := by
  induction count generalizing bytes with
  | zero => rfl
  | succ count ih =>
    have hfirst : min w.bytes ((count + 1) * w.bytes) = w.bytes := by
      rw [Nat.succ_mul]
      omega
    have hrest : (count + 1) * w.bytes - w.bytes = count * w.bytes := by
      rw [Nat.succ_mul, Nat.add_sub_cancel]
    rw [lengthsIn, lengthsIn, List.take_take, hfirst, List.drop_take, hrest, ih]

/-- Any bytes of the width are those of the length that they stand for. -/
theorem lengthBytes_decode {bytes : Bytes} (h : bytes.length = w.bytes) :
    w.lengthBytes (BigEndian.decode bytes) = .ok bytes := by
  have hlt := BigEndian.decode_lt bytes
  rw [h] at hlt
  rw [lengthBytes_of_le (le_max_iff.mpr hlt), ← h, BigEndian.encode_decode]

/-- A header of the right length is that of the lengths in it. -/
theorem headerBytes_lengthsIn {count : Nat} {header : Bytes}
    (h : header.length = count * w.bytes) :
    Writer.headerBytes w (w.lengthsIn count header) = .ok header := by
  induction count generalizing header with
  | zero =>
    rw [Nat.zero_mul, List.length_eq_zero_iff] at h
    rw [h]
    rfl
  | succ count ih =>
    rw [Nat.succ_mul] at h
    have hfirst : (header.take w.bytes).length = w.bytes := by
      rw [List.length_take]
      omega
    have hrest : (header.drop w.bytes).length = count * w.bytes := by
      rw [List.length_drop]
      omega
    rw [lengthsIn, Writer.headerBytes, lengthBytes_decode hfirst, ih hrest]
    show Except.ok (header.take w.bytes ++ header.drop w.bytes) = _
    rw [List.take_append_drop]

/-- Cutting up a header of the right length never fails, and gives the lengths in it. -/
theorem recover_header {count : Nat} {header : Bytes} (h : header.length = count * w.bytes) :
    (chunks w.bytes header >>= (·.mapM w.recover)) = .ok (w.lengthsIn count header) :=
  (recoverLengths_eq_ok.mpr ⟨w.length_lengthsIn count header, headerBytes_lengthsIn h⟩).2

end LengthWidth

/-! ### Writing -/

namespace Writer

variable {w : LengthWidth}

theorem headerBytes_of_le {fields : List Bytes} (h : ∀ field ∈ fields, field.length ≤ w.max) :
    headerBytes w (fields.map List.length) =
      .ok (fields.map fun field => BigEndian.encode w.bytes field.length).flatten := by
  induction fields with
  | nil => rfl
  | cons field fields ih =>
    obtain ⟨hfield, hfields⟩ := List.forall_mem_cons.mp h
    rw [List.map_cons, headerBytes, LengthWidth.lengthBytes_of_le hfield, ih hfields]
    rfl

/-- The first length that does not fit is the one that is refused. -/
theorem headerBytes_of_lt {before : List Bytes} (h : ∀ field ∈ before, field.length ≤ w.max)
    {field : Bytes} (hfield : w.max < field.length) (after : List Bytes) :
    headerBytes w ((before ++ field :: after).map List.length) =
      refuse (.lengthTooLarge field.length w.max) := by
  induction before with
  | nil =>
    rw [List.nil_append, List.map_cons, headerBytes, LengthWidth.lengthBytes_of_lt hfield]
    rfl
  | cons first before ih =>
    obtain ⟨hfirst, hbefore⟩ := List.forall_mem_cons.mp h
    rw [List.cons_append, List.map_cons, headerBytes, LengthWidth.lengthBytes_of_le hfirst,
      ih hbefore]
    rfl

/-- **Lengths that fit are written**, and the fields behind them. -/
theorem dynamic_of_le {fields : List Bytes} (h : ∀ field ∈ fields.dropLast, field.length ≤ w.max)
    (out : Bytes) : dynamic w fields out = (.ok (), out ++ w.dynamicRecord fields) := by
  refine (appends_dynamic w fields).ok _ ?_ out
  rw [headerBytes_of_le h]
  rfl

/-- **A length that does not fit is refused**, and the buffer is as it was. -/
theorem dynamic_of_lt {fields before after : List Bytes} {field : Bytes}
    (hsplit : fields.dropLast = before ++ field :: after)
    (h : ∀ field ∈ before, field.length ≤ w.max) (hfield : w.max < field.length) (out : Bytes) :
    dynamic w fields out = (refuse (.lengthTooLarge field.length w.max), out) := by
  have hheader : (headerBytes w (fields.dropLast.map List.length) >>= fun header =>
      Except.ok (header ++ fields.flatten)) = refuse (.lengthTooLarge field.length w.max) := by
    rw [hsplit, headerBytes_of_lt h hfield]
    rfl
  obtain ⟨rest, hrest⟩ := (appends_dynamic w fields).error _ hheader out
  have hout := restores_dynamic w fields out _ _ hrest
  rw [hout] at hrest
  exact hrest

end Writer

/-- In a list of fields not all of which are short enough there is a first that is too long. -/
theorem exists_first_too_long {limit : Nat} {fields : List Bytes}
    (h : ¬∀ field ∈ fields, field.length ≤ limit) :
    ∃ before field after, fields = before ++ field :: after ∧
      (∀ other ∈ before, other.length ≤ limit) ∧ limit < field.length := by
  induction fields with
  | nil => exact absurd nofun h
  | cons first fields ih =>
    by_cases hfirst : first.length ≤ limit
    · have hfields : ¬∀ field ∈ fields, field.length ≤ limit := fun hall =>
        h (List.forall_mem_cons.mpr ⟨hfirst, hall⟩)
      obtain ⟨before, field, after, rfl, hbefore, hfield⟩ := ih hfields
      exact ⟨first :: before, field, after, rfl, List.forall_mem_cons.mpr ⟨hfirst, hbefore⟩, hfield⟩
    · exact ⟨[], first, fields, rfl, nofun, Nat.not_le.mp hfirst⟩

/-! ### Reading a header -/

namespace View

/-- The window that is left of a byte string behind its first `count` bytes. -/
def behind (bytes : Bytes) (count : Nat) : View :=
  ⟨bytes.drop count, count, bytes.length - count, List.length_drop.symm⟩

theorem after_ofBytes (bytes : Bytes) (count : Nat) :
    (ofBytes bytes).after count = behind bytes count :=
  View.ext rfl (Nat.zero_add count)

/-- A byte string of any length is cut at a machine word, whether or not its end is one. -/
theorem take_ofBytes {bytes : Bytes} {count : Nat} (hword : count < wordLimit) :
    take count (ofBytes bytes) =
      if count ≤ bytes.length then (.ok (bytes.take count), behind bytes count)
      else (refuse (.bufferOverrun 0 count bytes.length), ofBytes bytes) := by
  by_cases hle : count ≤ bytes.length
  · have hcut : (ofBytes bytes).splitAt count =
        .ok (⟨bytes.take count, 0, _, rfl⟩, behind bytes count) :=
      splitAt_eq_ok.mpr ⟨(Nat.zero_add count).symm ▸ hword, hle, rfl, rfl, rfl,
        (Nat.zero_add _).symm⟩
    rw [if_pos hle, take, hcut]
  · have hlt := Nat.not_le.mp hle
    rw [if_neg hle]
    exact take_of_lt (fits_ofBytes (hlt.trans hword)) hlt

end View

namespace Reader

variable {w : LengthWidth}

/-- The sum is known just when the whole of it is a length. -/
theorem sumLengths?_eq {total : Nat} (htotal : total < wordLimit) (lens : List Nat) :
    sumLengths? total lens =
      if wordLimit ≤ total + lens.sum then none else some (total + lens.sum) := by
  induction lens generalizing total with
  | nil => exact (if_neg (Nat.not_le.mpr htotal)).symm
  | cons len lens ih =>
    rw [sumLengths?, Length.add?, List.sum_cons, ← Nat.add_assoc]
    by_cases hnext : total + len < wordLimit
    · rw [if_pos hnext]
      exact ih hnext
    · rw [if_neg hnext, if_pos (by omega)]
      rfl

/-- What becomes of the recorded lengths in front of what is left. -/
theorem lastLength_eq (lens : List Nat) (v : View) :
    lastLength lens v =
      if wordLimit ≤ lens.sum then (refuse (.sizeOverflow .fieldLengths), v)
      else if v.len < lens.sum then (refuse (.bufferOverrun v.offset lens.sum v.len), v)
      else (.ok (lens ++ [v.len - lens.sum]), v) := by
  have hsum : sumLengths? 0 lens = _ := sumLengths?_eq (by decide) lens
  rw [Nat.zero_add] at hsum
  rw [lastLength, hsum]
  by_cases hword : wordLimit ≤ lens.sum
  · rw [if_pos hword, if_pos hword]
    rfl
  · rw [if_neg hword, if_neg hword]
    show (if v.len < lens.sum then Step.refuse (.bufferOverrun v.offset lens.sum v.len)
      else pure (lens ++ [v.len - lens.sum]) : Step View (List Nat)) v = _
    split <;> rfl

/-- **What reading the header of a dynamic record comes to**, check by check, in a window from which
bytes can be taken. -/
theorem dynamicHeader_of_take {v : View}
    (htake : ∀ count < wordLimit, View.take count v =
      if count ≤ v.len then (.ok (v.bytes.take count), v.after count)
      else (refuse (.bufferOverrun v.offset count v.len), v)) (w : LengthWidth) (before : Nat) :
    let headerLen := before * w.bytes
    let lens := w.lengthsIn before v.bytes
    let behind := v.after headerLen
    dynamicHeader w (before + 1) v =
      if wordLimit ≤ headerLen then (refuse (.sizeOverflow .headerLength), v)
      else if v.len < headerLen then (refuse (.bufferOverrun v.offset headerLen v.len), v)
      else if wordLimit ≤ lens.sum then (refuse (.sizeOverflow .fieldLengths), behind)
      else if behind.len < lens.sum then
        (refuse (.bufferOverrun behind.offset lens.sum behind.len), behind)
      else (.ok (lens ++ [behind.len - lens.sum]), behind) := by
  intro headerLen lens behind
  by_cases hword : wordLimit ≤ headerLen
  · have hmul : Length.mul? before w.bytes = none := if_neg (Nat.not_lt.mpr hword)
    rw [if_pos hword, dynamicHeader, hmul]
    rfl
  · have hword' := Nat.not_le.mp hword
    have hcut := htake headerLen hword'
    rw [if_neg hword, dynamicHeader_succ w (if_pos hword'), bind_assoc]
    by_cases hshort : v.len < headerLen
    · rw [if_neg (Nat.not_le.mpr hshort)] at hcut
      rw [if_pos hshort, Step.bind_of_error hcut]
      rfl
    · have hheader : (v.bytes.take headerLen).length = headerLen := by
        have hlen := v.len_eq
        rw [List.length_take]
        omega
      rw [if_pos (Nat.not_lt.mp hshort)] at hcut
      rw [if_neg hshort, Step.bind_of_ok hcut, LengthWidth.recover_header hheader,
        Step.lift_ok_bind, lastLength_eq, w.lengthsIn_take before v.bytes]

/-- The same on any byte string. -/
theorem dynamicHeader_eq (w : LengthWidth) (before : Nat) (bytes : Bytes) :
    let headerLen := before * w.bytes
    let lens := w.lengthsIn before bytes
    let left := bytes.length - headerLen
    dynamicHeader w (before + 1) (View.ofBytes bytes) =
      if wordLimit ≤ headerLen then
        (refuse (.sizeOverflow .headerLength), View.ofBytes bytes)
      else if bytes.length < headerLen then
        (refuse (.bufferOverrun 0 headerLen bytes.length), View.ofBytes bytes)
      else if wordLimit ≤ lens.sum then
        (refuse (.sizeOverflow .fieldLengths), View.behind bytes headerLen)
      else if left < lens.sum then
        (refuse (.bufferOverrun headerLen lens.sum left), View.behind bytes headerLen)
      else (.ok (lens ++ [left - lens.sum]), View.behind bytes headerLen) := by
  have hheader := dynamicHeader_of_take (v := View.ofBytes bytes) (fun count hword => by
    rw [View.take_ofBytes hword, View.after_ofBytes]
    rfl) w before
  dsimp only at hheader
  rw [View.after_ofBytes] at hheader
  exact hheader

/-- Lengths that a header was read as make up all that is left. -/
theorem dynamicHeader_eq_ok {before : Nat} {bytes : Bytes} {lens : List Nat} {v : View}
    (h : dynamicHeader w (before + 1) (View.ofBytes bytes) = (.ok lens, v)) :
    lens.length = before + 1 ∧ lens.sum = bytes.length - before * w.bytes ∧
      v = View.behind bytes (before * w.bytes) ∧ before * w.bytes ≤ bytes.length := by
  rw [dynamicHeader_eq] at h
  split at h
  · cases (Prod.mk.inj h).1
  split at h
  · cases (Prod.mk.inj h).1
  split at h
  · cases (Prod.mk.inj h).1
  split at h
  · cases (Prod.mk.inj h).1
  rename_i hheader hword hsum
  obtain ⟨hlens, rfl⟩ := Prod.mk.inj h
  rw [← Except.ok.inj hlens]
  refine ⟨?_, ?_, rfl, Nat.not_lt.mp hheader⟩
  · rw [List.length_append, LengthWidth.length_lengthsIn, List.length_singleton]
  · rw [List.sum_append, List.sum_singleton]
    omega

/-- A record that was written is read from its front. -/
theorem dynamicHeader_dynamicRecord {fields : List Bytes}
    (h : ∀ field ∈ fields.dropLast, field.length ≤ w.max)
    (hlen : (w.dynamicRecord fields).length < wordLimit) :
    (dynamicHeader w fields.length).eval (View.ofBytes (w.dynamicRecord fields)) =
      .ok (fields.map List.length) := by
  have hheader := Writer.headerBytes_of_le h
  obtain ⟨v, hsplit, hv⟩ := View.Splits.exists_of_bytes_eq
    (v := View.ofBytes (w.dynamicRecord fields)) rfl
  have hfrom := (headerFrom_flatten fields).mpr hheader
  rw [← hv] at hfrom
  rw [Step.eval, (reads_dynamicHeader w fields.length).complete _ _ _ _ (View.fits_ofBytes hlen)
    hsplit hfrom]

end Reader

/-! ### Taking the fields -/

/-- Taking the front of a window that has so many bytes. -/
theorem View.take_of_bytes_eq {v : View} (hv : v.Fits) {part rest : Bytes}
    (h : v.bytes = part ++ rest) :
    ∃ v', take part.length v = (.ok part, v') ∧ v'.Fits ∧ v'.bytes = rest := by
  obtain ⟨v', hsplit, hrest⟩ := View.Splits.exists_of_bytes_eq h
  exact ⟨v', (reads_take part.length).complete v part v' part hv hsplit ⟨rfl, rfl⟩,
    hsplit.fits hv, hrest⟩

/-- Bytes can be cut up by lengths that make up all of them. -/
theorem exists_parts (lens : List Nat) {bytes : Bytes} (h : lens.sum = bytes.length) :
    ∃ parts : List Bytes, parts.map List.length = lens ∧ parts.flatten = bytes := by
  induction lens generalizing bytes with
  | nil => exact ⟨[], rfl, (List.length_eq_zero_iff.mp h.symm).symm⟩
  | cons len lens ih =>
    rw [List.sum_cons] at h
    have hrest : lens.sum = (bytes.drop len).length := by
      rw [List.length_drop]
      omega
    obtain ⟨parts, hlens, hparts⟩ := ih hrest
    refine ⟨bytes.take len :: parts, ?_, ?_⟩
    · rw [List.map_cons, hlens, List.length_take]
      congr 1
      omega
    · rw [List.flatten_cons, hparts, List.take_append_drop]

/-- **Parts that make up a window can be taken from it** one after the other, and nothing is
left. -/
theorem View.take_each {v : View} (hv : v.Fits) {parts : List Bytes} (h : v.bytes = parts.flatten) :
    ∃ v', (parts.map List.length).mapM take v = (.ok parts, v') ∧ v'.bytes = [] := by
  induction parts generalizing v with
  | nil => exact ⟨v, rfl, h⟩
  | cons part parts ih =>
    obtain ⟨v', hpart, hv', hrest⟩ := View.take_of_bytes_eq hv (List.flatten_cons ▸ h)
    obtain ⟨v'', hparts, hempty⟩ := ih hv' hrest
    refine ⟨v'', ?_, hempty⟩
    rw [List.map_cons, List.mapM_cons, Step.bind_of_ok hpart, Step.bind_of_ok hparts]
    rfl

/-- Each field decoded from a part of its own. -/
def Codecs.decodeParts {τ : Type} : Codecs τ → List Bytes → Outcome τ
  | .nil, _ => .ok ()
  | .cons _ _, [] => crash
  | .cons head tail, part :: parts => do
    let a ← head.decode part
    let as ← tail.decodeParts parts
    return (a, as)

/-- **Fields that are read by the lengths of parts** which make up a window are decoded from these
parts, and nothing is left. -/
theorem Tuple.readSized_eq (fields : Codecs τ) {lens : List Nat} {index : Nat}
    {parts : List Bytes} (hlens : lens.drop index = parts.map List.length)
    (hcount : parts.length = fields.count) {v : View} (hv : v.Fits)
    (h : v.bytes = parts.flatten) :
    ∃ v', readSized lens index fields v = (fields.decodeParts parts, v') ∧
      ∀ as, fields.decodeParts parts = .ok as → v'.bytes = [] := by
  induction fields generalizing index parts v with
  | nil =>
    obtain rfl : parts = [] := List.length_eq_zero_iff.mp hcount
    exact ⟨v, by rw [readSized]; rfl, fun _ _ => h⟩
  | cons head tail ih =>
    cases parts with
    | nil => cases hcount
    | cons part parts =>
      have hlen : lens[index]? = some part.length := by
        rw [← Nat.add_zero index, ← List.getElem?_drop, hlens]
        rfl
      have hnext : lens.drop (index + 1) = parts.map List.length := by
        rw [← List.tail_drop, hlens]
        rfl
      obtain ⟨v', hpart, hv', hrest⟩ := View.take_of_bytes_eq hv (List.flatten_cons ▸ h)
      obtain ⟨v'', htail, hempty⟩ := ih hnext (Nat.succ.inj hcount) hv' hrest
      have hread : readSized lens index (.cons head tail) = (do
          let a ← Reader.sized head part.length
          let as ← readSized lens (index + 1) tail
          return (a, as)) := by
        rw [readSized, hlen]
      have hsized : Reader.sized head part.length v = (head.decode part, v') := by
        rw [Reader.sized, Step.bind_of_ok hpart]
        rfl
      rw [hread, Codecs.decodeParts]
      cases ha : head.decode part with
      | error fault =>
        rw [ha] at hsized
        exact ⟨v', Step.bind_of_error hsized, fun _ h => by cases h⟩
      | ok a =>
        rw [ha] at hsized
        rw [Step.bind_of_ok hsized, Outcome.ok_bind]
        cases has : tail.decodeParts parts with
        | error fault =>
          rw [has] at htail
          exact ⟨v'', Step.bind_of_error htail, fun _ h => by cases h⟩
        | ok as =>
          rw [has] at htail
          exact ⟨v'', Step.bind_of_ok htail, fun _ _ => hempty as has⟩

theorem Reader.finish_of_bytes_eq_nil {v : View} (h : v.bytes = []) : finish v = .ok () :=
  if_pos (View.isEmpty_iff.mpr h)

/-- A dynamic record whose header can be read is decoded part by part. -/
theorem Tuple.decode_dynamic {w : LengthWidth} {fields : Codecs τ} {bytes : Bytes}
    {lens : List Nat} {v : View}
    (h : Reader.dynamicHeader w fields.count (View.ofBytes bytes) = (.ok lens, v)) (hv : v.Fits)
    {parts : List Bytes} (hlens : parts.map List.length = lens)
    (hcount : parts.length = fields.count) (hparts : v.bytes = parts.flatten) :
    (dynamic fields).decode w bytes = fields.decodeParts parts := by
  have hall : lens.drop 0 = parts.map List.length := hlens.symm
  obtain ⟨v', hread, hempty⟩ := readSized_eq fields hall hcount hv hparts
  have hrun : (do
      let lens ← Reader.dynamicHeader w fields.count
      readSized lens 0 fields : Step View τ) (View.ofBytes bytes) =
        (fields.decodeParts parts, v') := (Step.bind_of_ok h).trans hread
  show Reader.decodeWith _ bytes = _
  rw [Reader.decodeWith, show (do
      let lens ← Reader.dynamicHeader w (dynamic fields).fieldCount
      (dynamic fields).read lens : Step View τ) (View.ofBytes bytes) = _ from hrun]
  cases has : fields.decodeParts parts with
  | error fault => rfl
  | ok as =>
    show (Reader.finish v').map (fun _ => as) = .ok as
    rw [Reader.finish_of_bytes_eq_nil (hempty as has)]
    rfl

/-! ### The whole of it -/

/-- **Dynamic records and their headers are exact on every input.** Encoded fields are written
behind the lengths of all but the last just when these fit their width; otherwise the first that
does not is refused and the buffer is as it was. Read back, the lengths are those of the fields. On
any byte string, the header of so many fields is refused for the first of four reasons that holds:
it is longer than a length can be; the bytes end before it does, and then none is taken; the lengths
in it add up to more than a length can be; they add up to more than is left. Where none holds, there
is a length for each field, and together they are what is left: the fields can be taken one after
the other, nothing is left behind them, and a record fails in no other way than that one of them
cannot be decoded from its own bytes. -/
theorem dynamic_headers_are_exact :
    (∀ (w : LengthWidth) (fields : List Bytes) (out : Bytes),
      let fits := ∀ field ∈ fields.dropLast, field.length ≤ w.max
      ((Writer.dynamic w fields out).1 = .ok () ↔ fits) ∧
      (fits → Writer.dynamic w fields out = (.ok (), out ++ w.dynamicRecord fields)) ∧
      (¬fits → ∃ before field after, fields.dropLast = before ++ field :: after ∧
        (∀ other ∈ before, other.length ≤ w.max) ∧ w.max < field.length ∧
        Writer.dynamic w fields out = (refuse (.lengthTooLarge field.length w.max), out)) ∧
      (fits → (w.dynamicRecord fields).length < wordLimit →
        (Reader.dynamicHeader w fields.length).eval (View.ofBytes (w.dynamicRecord fields)) =
          .ok (fields.map List.length))) ∧
    (∀ (w : LengthWidth) (before : Nat) (bytes : Bytes),
      let headerLen := before * w.bytes
      let lens := w.lengthsIn before bytes
      let left := bytes.length - headerLen
      Reader.dynamicHeader w (before + 1) (View.ofBytes bytes) =
        if wordLimit ≤ headerLen then
          (refuse (.sizeOverflow .headerLength), View.ofBytes bytes)
        else if bytes.length < headerLen then
          (refuse (.bufferOverrun 0 headerLen bytes.length), View.ofBytes bytes)
        else if wordLimit ≤ lens.sum then
          (refuse (.sizeOverflow .fieldLengths), View.behind bytes headerLen)
        else if left < lens.sum then
          (refuse (.bufferOverrun headerLen lens.sum left), View.behind bytes headerLen)
        else (.ok (lens ++ [left - lens.sum]), View.behind bytes headerLen)) ∧
    ∀ (w : LengthWidth) (before : Nat) (bytes : Bytes) (lens : List Nat) (v : View),
      bytes.length < wordLimit →
      Reader.dynamicHeader w (before + 1) (View.ofBytes bytes) = (.ok lens, v) →
      lens.length = before + 1 ∧ lens.sum = bytes.length - before * w.bytes ∧
      ∃ parts, parts.map List.length = lens ∧ parts.flatten = bytes.drop (before * w.bytes) ∧
        (∃ v', lens.mapM View.take v = (.ok parts, v') ∧ Reader.finish v' = .ok ()) ∧
        ∀ {τ : Type} (fields : Codecs τ), fields.count = before + 1 →
          (Tuple.dynamic fields).decode w bytes = fields.decodeParts parts := by
  refine ⟨fun w fields out => ?_, fun w before bytes => Reader.dynamicHeader_eq w before bytes,
    fun w before bytes lens v hlen hheader => ?_⟩
  · intro fits
    have hwritten (h : fits) := Writer.dynamic_of_le h out
    have hrefused (h : ¬fits) : ∃ before field after, fields.dropLast = before ++ field :: after ∧
        (∀ other ∈ before, other.length ≤ w.max) ∧ w.max < field.length ∧
        Writer.dynamic w fields out = (refuse (.lengthTooLarge field.length w.max), out) := by
      obtain ⟨before, field, after, hsplit, hbefore, hfield⟩ := exists_first_too_long h
      exact ⟨before, field, after, hsplit, hbefore, hfield,
        Writer.dynamic_of_lt hsplit hbefore hfield out⟩
    refine ⟨⟨fun hok => ?_, fun h => congrArg Prod.fst (hwritten h)⟩, hwritten, hrefused,
      fun h hlen => Reader.dynamicHeader_dynamicRecord h hlen⟩
    by_contra hfits
    obtain ⟨before, field, after, -, -, -, herror⟩ := hrefused hfits
    rw [herror] at hok
    cases hok
  · obtain ⟨hcount, hsum, rfl, hle⟩ := Reader.dynamicHeader_eq_ok hheader
    have hdrop : (bytes.drop (before * w.bytes)).length = bytes.length - before * w.bytes :=
      List.length_drop
    obtain ⟨parts, hlens, hparts⟩ := exists_parts lens (hsum.trans hdrop.symm)
    have hfits : (View.behind bytes (before * w.bytes)).Fits := by
      show before * w.bytes + (bytes.length - before * w.bytes) < wordLimit
      omega
    obtain ⟨v', htaken, hempty⟩ := View.take_each hfits hparts.symm
    rw [hlens] at htaken
    refine ⟨hcount, hsum, parts, hlens, hparts,
      ⟨v', htaken, Reader.finish_of_bytes_eq_nil hempty⟩, fun fields hfields => ?_⟩
    have hpartsCount : parts.length = fields.count := by
      rw [hfields, ← hcount, ← hlens, List.length_map]
    exact Tuple.decode_dynamic (hfields ▸ hheader) hfits hlens hpartsCount hparts.symm

/-- Two fields with lengths of one byte, written and read back; and one field too long for that. -/
theorem dynamic_headers_are_exact_at_two :
    let fields : List Bytes := [[7], [8, 9]]
    let long : List Bytes := [List.replicate 256 0, []]
    let bytes : Bytes := [1, 7, 8, 9]
    (∀ field ∈ fields.dropLast, field.length ≤ LengthWidth.one.max) ∧
    Writer.dynamic .one fields [5] = (.ok (), [5] ++ bytes) ∧
    (Reader.dynamicHeader .one 2).eval (View.ofBytes bytes) = .ok [1, 2] ∧
    (¬∀ field ∈ long.dropLast, field.length ≤ LengthWidth.one.max) ∧
    (∃ field : Bytes, Writer.dynamic .one long [5] =
      (refuse (.lengthTooLarge field.length 255), [5])) ∧
    Reader.dynamicHeader .one 2 (View.ofBytes bytes) = (.ok [1, 2], View.behind bytes 1) ∧
    (∃ parts, parts.map List.length = [1, 2] ∧
      (Tuple.dynamic (.cons byteCodec.toCodec (.cons textCodec .nil))).decode .one bytes =
        (Codecs.cons byteCodec.toCodec (.cons textCodec .nil)).decodeParts parts) := by
  intro fields long bytes
  obtain ⟨hwrite, hread, hparts⟩ := dynamic_headers_are_exact
  have hfits : ∀ field ∈ fields.dropLast, field.length ≤ LengthWidth.one.max := by decide
  have hlong : ¬∀ field ∈ long.dropLast, field.length ≤ LengthWidth.one.max := fun h =>
    absurd (h (List.replicate 256 0) (List.mem_singleton.mpr rfl)) (by
      rw [List.length_replicate]
      decide)
  obtain ⟨-, hwritten, -, hback⟩ := hwrite .one fields [5]
  obtain ⟨-, -, hrefused, -⟩ := hwrite .one long [5]
  obtain ⟨before, field, after, -, -, -, herror⟩ := hrefused hlong
  have hheader : Reader.dynamicHeader .one 2 (View.ofBytes bytes) =
      (.ok [1, 2], View.behind bytes 1) := hread .one 1 bytes
  obtain ⟨-, -, parts, hlens, -, -, hdecode⟩ := hparts .one 1 bytes _ _ (by decide) hheader
  exact ⟨hfits, hwritten hfits, hback hfits (by decide), hlong, ⟨field, herror⟩, hheader, parts,
    hlens, hdecode _ rfl⟩

end WireForm
