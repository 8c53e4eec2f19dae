import WireForm.Proofs.RoundTrip
import WireForm.Proofs.View

/-!
# Where an encoding ends

A reader finds the end of what it reads in the bytes themselves, or takes all there is. Readers of
the first kind notice both when bytes are missing and when bytes are left over. `Delimits x front a`
says so of one encoding: the reader `x` takes `front` from in front of any other bytes and gives
`a`, and of a part of `front` with nothing behind it, it asks for more bytes than there are.

Every reader of a field is of this kind but the one for a last field of unknown size. So a mixed
record is delimited when the size of its last field is known, however the fields in front of it find
their ends, and no such record can be cut short or extended without being refused.

## Main definitions

* `Overruns` — a refusal because bytes are missing
* `Delimits` — a reader finds the end of an encoding
* `SelfDelimiting` — the same of an encoding and a decoder of whole byte strings

## Main results

* `Delimits.bind`, `Delimits.pair` — readers that find their ends compose
* `Reader.delimits_sized`, `Reader.delimits_length`, `Reader.delimits_measured`,
  `Reader.delimits_field` — the readers of single fields
* `Codec.ItemFrom.delimits` — the values of a sequence
* `Tuple.delimits_readMixed` — mixed records
* `mixed_encodings_are_selfDelimiting` — tuples and declared records in the mixed form
-/

namespace WireForm

variable {α β τ : Type}

/-! ### Missing bytes -/

/-- More bytes were asked for than there are in front of position `stop`. -/
def Overruns (o : Outcome α) (stop : Nat) : Prop :=
  ∃ offset len available, o = refuse (.bufferOverrun offset len available) ∧
    offset + available = stop ∧ available < len

theorem Overruns.ne_ok {o : Outcome α} {stop : Nat} (h : Overruns o stop) (a : α) : o ≠ .ok a := by
  obtain ⟨offset, len, available, rfl, -⟩ := h
  intro hok
  cases hok

/-- A step that overruns gives no value, so whatever would have come of the value overruns too. -/
theorem Overruns.exists_apply {x : Step View α} {v : View} {stop : Nat}
    (h : Overruns (x.eval v) stop) :
    ∃ fault v', x v = (.error fault, v') ∧ Overruns (.error fault : Outcome β) stop := by
  obtain ⟨offset, len, available, hx, hstop⟩ := h
  exact ⟨_, (x v).2, Prod.ext hx rfl, offset, len, available, rfl, hstop⟩

/-! ### Readers that find an end -/

/-- The reader finds the end of `front`, which it reads as `a`. -/
structure Delimits (x : Step View α) (front : Bytes) (a : α) : Prop where
  /-- Whatever comes behind it, exactly `front` is taken. -/
  whole : ∀ v v', v.Fits → v.Splits front v' → x v = (.ok a, v')
  /-- A part of it is not enough, and bytes are found missing at its end. -/
  cut : ∀ v, v.Fits → v.bytes <+: front → v.bytes ≠ front → Overruns (x.eval v) (v.offset + v.len)

/-- A cut through a concatenation is a cut through its first part, or not before the end of it. -/
theorem cut_cases {bytes first second : Bytes} (h : bytes <+: first ++ second) :
    (bytes <+: first ∧ bytes ≠ first) ∨ ∃ part, bytes = first ++ part ∧ part <+: second := by
  rcases List.prefix_or_prefix_of_prefix h (List.prefix_append first second) with hshort | hlong
  · by_cases heq : bytes = first
    · exact Or.inr ⟨[], by rw [heq, List.append_nil], List.nil_prefix⟩
    · exact Or.inl ⟨hshort, heq⟩
  · obtain ⟨part, rfl⟩ := hlong
    exact Or.inr ⟨part, rfl, (List.prefix_append_right_inj first).mp h⟩

namespace Delimits

variable {x : Step View α} {front : Bytes} {a : α}

theorem lift {o : Outcome α} (h : o = .ok a) : Delimits (Step.lift o) [] a where
  whole v v' _ hsplit := by
    rw [h, hsplit.unique (View.Splits.refl v)]
    rfl
  cut v _ hbegins hne := absurd (List.prefix_nil.mp hbegins) hne

/-- **Readers that find their ends compose.** Bytes are missing from the first encoding, or the
first is read as a whole and they are missing from the second. -/
theorem bind {f : α → Step View β} {first second : Bytes} {b : β} (hx : Delimits x first a)
    (hf : Delimits (f a) second b) : Delimits (x >>= f) (first ++ second) b where
  whole v v'' hv hsplit := by
    obtain ⟨v', hfirst, hv'⟩ := View.Splits.exists_of_bytes_eq
      (hsplit.bytes_eq.trans (List.append_assoc ..))
    obtain ⟨w, hsecond, hw⟩ := View.Splits.exists_of_bytes_eq hv'
    obtain rfl : w = v'' := (hfirst.trans hsecond).unique hsplit
    rw [Step.bind_of_ok (hx.whole v v' hv hfirst)]
    exact hf.whole v' w (hfirst.fits hv) hsecond
  cut v hv hbegins hne := by
    rcases cut_cases hbegins with ⟨hshort, hshortNe⟩ | ⟨part, hbytes, hpart⟩
    · obtain ⟨fault, v', hfault, hoverrun⟩ := (hx.cut v hv hshort hshortNe).exists_apply
      rw [Step.eval, Step.bind_of_error hfault]
      exact hoverrun
    · obtain ⟨v', hsplit, rfl⟩ := View.Splits.exists_of_bytes_eq hbytes
      have hstop : v.offset + v.len = v'.offset + v'.len := by
        rw [hsplit.offset_eq, hsplit.len_eq, Nat.add_assoc]
      have hpartNe : v'.bytes ≠ second := fun heq => hne (hbytes.trans (by rw [heq]))
      have heval : (x >>= f).eval v = (f a).eval v' := by
        rw [Step.eval, Step.bind_of_ok (hx.whole v v' hv hsplit)]
        rfl
      rw [heval, hstop]
      exact hf.cut v' (hsplit.fits hv) hpart hpartNe

/-- A reader followed by a conversion that takes nothing. -/
theorem bind_lift (hx : Delimits x front a) {g : α → Outcome β} {b : β} (hg : g a = .ok b) :
    Delimits (do let a ← x; Step.lift (g a)) front b := by
  have h : Delimits (do let a ← x; Step.lift (g a)) (front ++ []) b := hx.bind (lift hg)
  rwa [List.append_nil] at h

/-- What is read as another type is delimited alike. -/
theorem map (hx : Delimits x front a) (f : α → β) :
    Delimits (do return f (← x)) front (f a) :=
  hx.bind_lift (g := fun a => .ok (f a)) rfl

/-- Two readers, one after the other, for a pair of values. -/
theorem pair {y : Step View β} {first second : Bytes} {b : β} (hx : Delimits x first a)
    (hy : Delimits y second b) :
    Delimits (do let a ← x; let b ← y; return (a, b)) (first ++ second) (a, b) :=
  hx.bind (hy.map fun b => (a, b))

end Delimits

/-! ### Single fields -/

theorem View.delimits_take (front : Bytes) : Delimits (take front.length) front front where
  whole v v' hv hsplit := (reads_take front.length).complete v front v' front hv hsplit ⟨rfl, rfl⟩
  cut v hv hbegins hne := by
    have hlen : v.len < front.length := by
      have hle := hbegins.length_le
      have hlenNe : v.bytes.length ≠ front.length := fun heq => hne (hbegins.eq_of_length heq)
      rw [v.len_eq]
      omega
    rw [Step.eval, take_of_lt hv hlen]
    exact ⟨v.offset, front.length, v.len, rfl, rfl, hlen⟩

namespace Reader

variable {w : LengthWidth} {c : Codec α} {own front rest : Bytes} {a : α}

theorem delimits_sized (ha : c.decode own = .ok a) : Delimits (sized c own.length) own a :=
  (View.delimits_take own).bind_lift ha

theorem delimits_length {len : Nat} (h : w.lengthBytes len = .ok front) :
    Delimits (length w) front len := by
  have hlen : front.length = w.bytes := LengthWidth.length_lengthBytes h
  have hrecover : w.recover front = .ok len := LengthWidth.recover_eq_ok_iff.mpr h
  rw [length, ← hlen]
  exact (View.delimits_take front).bind_lift hrecover

/-- A field is found by the length in front of it, and the length by its width. -/
theorem delimits_measured (hframe : w.frame own = .ok front) (ha : c.decode own = .ok a) :
    Delimits (measured w c) front a := by
  obtain ⟨length, hlength, hfront⟩ := Outcome.bind_eq_ok.mp hframe
  rw [← Except.ok.inj hfront]
  exact (delimits_length hlength).bind (delimits_sized ha)

/-- Only a last field of unknown size has no end of its own. -/
theorem delimits_field {isLast : Bool} (hlast : isLast = true → c.isSized = true)
    (hstands : c.StandsAs w isLast own front rest) (ha : c.decode own = .ok a) :
    Delimits (field w c isLast) front a := by
  cases hsize : c.size? with
  | some size =>
    obtain ⟨rfl, rfl⟩ := (Codec.standsAs_sized hsize).mp hstands
    rw [show field w c isLast = sized c front.length by rw [field, hsize]]
    exact delimits_sized ha
  | none =>
    have hframed : isLast = false := by
      cases isLast with
      | false => rfl
      | true => simp [Codec.isSized, hsize] at hlast
    subst hframed
    rw [show field w c false = measured w c by rw [field, hsize]; rfl]
    exact delimits_measured ((Codec.standsAs_framed hsize).mp hstands) ha

end Reader

/-- A value of a sequence delimits itself: it is never read as the last. -/
theorem Codec.ItemFrom.delimits {w : LengthWidth} {c : Codec α} {front rest : Bytes} {a : α}
    (h : c.ItemFrom w front rest a) : Delimits (Reader.field w c false) front a := by
  obtain ⟨own, hstands, ha⟩ := h
  exact Reader.delimits_field (fun hlast => nomatch hlast) hstands ha

/-! ### Mixed records -/

/-- The size of the last field is known. There may be none. -/
def Codecs.EndsSized : {τ : Type} → Codecs τ → Prop
  | _, .nil => True
  | _, .cons head tail => ((tail.count == 0) = true → head.isSized = true) ∧ tail.EndsSized

theorem Codecs.endsSized_of_getLast? {fields : Codecs τ} {m : Nat}
    (h : fields.sizes.getLast? = some (some m)) : fields.EndsSized := by
  induction fields with
  | nil => trivial
  | cons head tail ih =>
    cases tail with
    | nil =>
      have hsize : head.size? = some m := Option.some.inj h
      refine ⟨fun _ => ?_, trivial⟩
      rw [Codec.isSized, hsize]
      rfl
    | cons next others =>
      have htail : (Codecs.cons next others).sizes.getLast? = some (some m) := by
        rw [← h]
        exact (List.getLast?_cons_cons ..).symm
      exact ⟨fun hcount => absurd hcount (by simp [Codecs.count]), ih htail⟩

/-- **A mixed record whose last field has a known size ends where its last field does.** -/
theorem Tuple.delimits_readMixed {w : LengthWidth} {fields : Codecs τ} (h : fields.EndsSized)
    {front rest : Bytes} {as : τ} (hfrom : fields.MixedFrom w front rest as) :
    Delimits (readMixed w fields) front as := by
  induction fields generalizing front with
  | nil =>
    obtain rfl : front = [] := hfrom
    rw [readMixed]
    exact Delimits.lift rfl
  | cons head tail ih =>
    obtain ⟨a, as⟩ := as
    obtain ⟨first, second, rfl, ⟨own, hstands, ha⟩, hfrom⟩ := hfrom
    rw [readMixed_cons]
    exact (Reader.delimits_field h.1 hstands ha).pair (ih h.2 hfrom)

/-! ### Whole byte strings -/

/-- No other byte string that begins like an encoding, or that an encoding begins like, is accepted:
one that ends before it overruns, and one that goes on behind it is too long. -/
structure SelfDelimiting (decode : Bytes → Outcome α) (bytes : Bytes) : Prop where
  /-- Of a beginning, bytes are missing. -/
  cut : ∀ part, part <+: bytes → part ≠ bytes → Overruns (decode part) part.length
  /-- Of more than the encoding, all that is more is left over. -/
  extended : ∀ extra, extra ≠ [] → (bytes ++ extra).length < wordLimit →
    decode (bytes ++ extra) = refuse (.sizeMismatch bytes.length (bytes.length + extra.length))

/-- No accepted byte string is a proper beginning of an encoding. -/
theorem SelfDelimiting.eq_of_isPrefix {decode : Bytes → Outcome α} {bytes other : Bytes} {a : α}
    (h : SelfDelimiting decode bytes) (hok : decode other = .ok a) (hbegins : other <+: bytes) :
    other = bytes := by
  by_contra hne
  exact (h.cut other hbegins hne).ne_ok a hok

/-- What is left over is counted. -/
theorem Reader.finish_of_bytes_ne_nil {v : View} (hv : v.Fits) (h : v.bytes ≠ []) :
    finish v = refuse (.sizeMismatch v.offset (v.offset + v.len)) := by
  have hlen : v.len ≠ 0 := by rwa [v.len_eq, ne_eq, List.length_eq_zero_iff]
  rw [finish_eq hv, if_neg hlen]

/-- **A reader that finds the end of an encoding decodes no byte string that ends elsewhere.** -/
theorem Delimits.selfDelimiting {x : Step View α} {front : Bytes} {a : α} (h : Delimits x front a)
    (hlen : front.length < wordLimit) : SelfDelimiting (Reader.decodeWith x) front where
  cut part hbegins hne := by
    have hfits : (View.ofBytes part).Fits :=
      View.fits_ofBytes (Nat.lt_of_le_of_lt hbegins.length_le hlen)
    obtain ⟨fault, v, hfault, hoverrun⟩ :=
      (h.cut (View.ofBytes part) hfits hbegins hne).exists_apply
    rw [show (View.ofBytes part).offset + (View.ofBytes part).len = part.length from
      Nat.zero_add part.length] at hoverrun
    rw [Reader.decodeWith, hfault]
    exact hoverrun
  extended extra hne hlen := by
    obtain ⟨v, hsplit, hrest⟩ := View.Splits.exists_of_bytes_eq
      (show (View.ofBytes (front ++ extra)).bytes = front ++ extra from rfl)
    have hfits : (View.ofBytes (front ++ extra)).Fits := View.fits_ofBytes hlen
    have hoffset : v.offset = front.length := by
      rw [hsplit.offset_eq]
      exact Nat.zero_add _
    have hleft : v.len = extra.length := by rw [v.len_eq, hrest]
    have hfinish : Reader.finish v =
        refuse (.sizeMismatch front.length (front.length + extra.length)) := by
      rw [Reader.finish_of_bytes_ne_nil (hsplit.fits hfits) (by rwa [hrest]), hoffset, hleft]
    rw [Reader.decodeWith, h.whole _ v hfits hsplit]
    show (Reader.finish v).map (fun _ => a) = _
    rw [hfinish]
    rfl

/-- **A mixed record with a last field of known size is delimited by its own bytes**, as a tuple and
as a declared record, in every width of lengths: no part of its encoding is decoded, nothing longer
is, and so no byte string that is accepted is a proper part of it. -/
theorem mixed_encodings_are_selfDelimiting {fields : Codecs τ} (hf : fields.Lawful) {m : Nat}
    (hlast : fields.sizes.getLast? = some (some m)) (w : LengthWidth) :
    (∀ (as : τ) (bytes : Bytes), fields.Recover as →
      (Tuple.mixed fields).encode w as = .ok bytes → bytes.length < wordLimit →
      SelfDelimiting ((Tuple.mixed fields).decode w) bytes ∧
      ∀ other b, (Tuple.mixed fields).decode w other = .ok b → other <+: bytes → other = bytes) ∧
    (∀ {α : Type} (iso : Iso α τ) (a : α) (bytes : Bytes), fields.Recover (iso.forth a) →
      ((Record.mixed fields).imap iso).encode w a = .ok bytes → bytes.length < wordLimit →
      SelfDelimiting (((Record.mixed fields).imap iso).decode w) bytes ∧
      ∀ other b, ((Record.mixed fields).imap iso).decode w other = .ok b → other <+: bytes →
        other = bytes) := by
  have hdelimits : ∀ as bytes, fields.Recover as → (Tuple.mixed fields).encode w as = .ok bytes →
      bytes.length < wordLimit → Delimits (Tuple.readMixed w fields) bytes as := by
    intro as bytes hrecover henc hlen
    rw [Tuple.encode_mixed hf] at henc
    exact Tuple.delimits_readMixed (Codecs.endsSized_of_getLast? hlast)
      (Codecs.mixedFrom_of_joinFields hf hrecover henc hlen)
  constructor
  · intro as bytes hrecover henc hlen
    have hself := (hdelimits as bytes hrecover henc hlen).selfDelimiting hlen
    exact ⟨hself, fun _ _ => hself.eq_of_isPrefix⟩
  · intro α iso a bytes hrecover henc hlen
    rw [Record.mixed_eq_tuple] at henc ⊢
    have hself := ((hdelimits _ bytes hrecover henc hlen).map iso.back).selfDelimiting hlen
    exact ⟨hself, fun _ _ => hself.eq_of_isPrefix⟩

/-- A tagged count that is cut off inside its length, inside its tag and inside its count, and one
with a byte behind it. -/
theorem mixed_encodings_are_selfDelimiting_at_tagged :
    let decode := ((Record.mixed (Shapes.cons .text (.cons (.fixed Register.u32) .nil)).codecs).imap
      Register.Tagged.iso).decode .two
    Overruns (decode [0]) 1 ∧ Overruns (decode [0, 2, 97]) 3 ∧
      Overruns (decode [0, 2, 97, 98, 0, 0]) 6 ∧
      decode ([0, 2, 97, 98, 0, 0, 0, 5] ++ [7]) = refuse (.sizeMismatch 8 9) := by
  intro decode
  have hrecover : (Shapes.cons .text (.cons (.fixed Register.u32) .nil)).codecs.Recover
      (Register.Tagged.iso.forth ⟨"ab", ⟨5, by decide⟩⟩) :=
    Shapes.recover _ _ ⟨trivial, trivial, trivial⟩
  obtain ⟨⟨hcut, hextended⟩, -⟩ := (mixed_encodings_are_selfDelimiting (Shapes.lawful _) rfl .two).2
    Register.Tagged.iso ⟨"ab", ⟨5, by decide⟩⟩ [0, 2, 97, 98, 0, 0, 0, 5] hrecover
    (by decide +kernel) (by decide)
  exact ⟨hcut [0] (by decide) (by decide), hcut [0, 2, 97] (by decide) (by decide),
    hcut [0, 2, 97, 98, 0, 0] (by decide) (by decide), hextended [7] (by decide) (by decide)⟩

end WireForm
