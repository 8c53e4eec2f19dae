import WireForm.Proofs.StaticSize

/-!
# Where the forms coincide

A tuple all of whose fields but the last have a fixed size can be encoded in the hybrid form, and in
the mixed form with lengths of any width; one all of whose fields have a fixed size in the packed
form as well; and one of a single field in all four. None of these ways records anything then, so
all write the same bytes. They differ in where they look for the end of the last field: the packed
form compares the length of everything with a sum, the hybrid form takes what is left, the mixed
form takes as much as the field promises and refuses what is left over, and the dynamic form
subtracts the recorded lengths, of which there are none. That all accept the same bytes is because
every field keeps the size it promises. What they report when they refuse differs.

## Main definitions

* `Coder`, `Coder.Coincides` — an encoding and a decoding function, and when two pairs of them
  agree
* `FixedCodecs.toCodecs` — a packed record, seen as a mixed one
* `FixedCodecs.followedBy`, `FixedCodecs.followedByFixed` — a tuple with one more field
* `FixedCodecs.regroup` — its values, with the last field apart

## Main results

* `Tuple.decode_packed_eq_ok`, `Tuple.decode_hybrid_eq_ok`, `Tuple.decode_mixed_eq_ok`,
  `Tuple.decode_dynamic_eq_ok` — from which bytes each form is decoded
* `Tuple.packed_coincides_mixed`, `Tuple.mixed_coincides_hybrid`, `Tuple.hybrid_coincides_single`,
  `Tuple.dynamic_coincides_single` — each form against another
* `forms_coincide` — all of it
-/

namespace WireForm

variable {α β σ τ : Type}

/-! ### Two ways to encode a type -/

/-- A way to encode the values of a type, and to decode byte strings. -/
structure Coder (α : Type) where
  /-- The encoding of a value. -/
  encode : α → Outcome Bytes
  /-- The value that a byte string encodes. -/
  decode : Bytes → Outcome α

/-- A codec, as such a way. -/
def Codec.coder (c : Codec α) : Coder α := ⟨c.encode, c.decode⟩

/-- The packed form. -/
def PackedForm.coder (f : PackedForm α) : Coder α := ⟨f.encode, f.decode⟩

/-- Appending to an empty buffer is storing in room for the record. -/
theorem PackedForm.coder_codec (f : PackedForm α) : f.codec.coder = f.coder := by
  have hencode : f.codec.encode = f.encode := by
    funext a
    rw [Codec.encode, show f.codec.append a [] = appendStored f.totalSize f.store a [] from rfl,
      appendStored, encode]
    cases f.store a (List.replicate f.totalSize 0) <;> rfl
  rw [Codec.coder, hencode]
  rfl

/-- The hybrid form. -/
def HybridForm.coder (f : HybridForm α) : Coder α := ⟨f.encode, f.decode⟩

/-- The dynamic form, with lengths of some width. -/
def DynamicForm.coder (f : DynamicForm α) (w : LengthWidth) : Coder α := ⟨f.encode w, f.decode w⟩

/-- The mixed form, with lengths of some width. -/
def MixedForm.coder (f : MixedForm α) (w : LengthWidth) : Coder α := ⟨f.encode w, f.decode w⟩

/-- Two ways write the same bytes, or fail alike, and accept the same byte strings for the same
values. Only byte strings that fit the machine are asked about. -/
structure Coder.Coincides (c d : Coder α) : Prop where
  /-- Every value has the same encoding, or the same error. -/
  encode_eq : ∀ a, c.encode a = d.encode a
  /-- Every byte string is accepted by both, for the same value, or by neither. -/
  decode_iff : ∀ bytes, bytes.length < wordLimit → ∀ a,
    c.decode bytes = .ok a ↔ d.decode bytes = .ok a

namespace Coder.Coincides

variable {c d e : Coder α}

theorem symm (h : c.Coincides d) : d.Coincides c where
  encode_eq a := (h.encode_eq a).symm
  decode_iff bytes hlen a := (h.decode_iff bytes hlen a).symm

theorem trans (h : c.Coincides d) (h' : d.Coincides e) : c.Coincides e where
  encode_eq a := (h.encode_eq a).trans (h'.encode_eq a)
  decode_iff bytes hlen a := (h.decode_iff bytes hlen a).trans (h'.decode_iff bytes hlen a)

end Coder.Coincides

/-- A value was converted after decoding just when it converts to what was decoded. -/
theorem Codec.decode_imap_eq_ok {c : Codec β} {iso : Iso α β} {bytes : Bytes} {a : α} :
    (c.imap iso).decode bytes = .ok a ↔ c.decode bytes = .ok (iso.forth a) := by
  show (c.decode bytes).map iso.back = .ok a ↔ _
  rw [Outcome.map_eq_ok]
  constructor
  · rintro ⟨b, hb, rfl⟩
    rw [hb, iso.forth_back]
  · intro h
    exact ⟨iso.forth a, h, iso.back_forth a⟩

theorem HybridForm.decode_imap_eq_ok {f : HybridForm β} {iso : Iso α β} {bytes : Bytes} {a : α} :
    (f.imap iso).decode bytes = .ok a ↔ f.decode bytes = .ok (iso.forth a) := by
  show ((f.imap iso).codec none).decode bytes = .ok a ↔ (f.codec none).decode bytes = _
  rw [f.codec_imap]
  exact Codec.decode_imap_eq_ok

/-! ### All fields of fixed sizes -/

/-- Nothing is recorded in front of a field of a fixed size. -/
theorem FixedCodec.Lawful.written_eq {c : FixedCodec α} (h : c.Lawful) (w : LengthWidth)
    (bare : Bool) (a : α) : (c.toCodec.fieldEncoding a).written w bare = .ok (c.image a) := by
  have hsized : (c.toCodec.fieldEncoding a).isSized := Codec.isSized_fieldEncoding h.size?_eq
  rw [FieldEncoding.written_of_bare (Or.inl hsized)]
  exact h.encode_eq a

namespace FixedCodecs

/-- Fields of fixed sizes, as fields. -/
def toCodecs : {τ : Type} → FixedCodecs τ → Codecs τ
  | _, .nil => .nil
  | _, .cons head tail => .cons head.toCodec tail.toCodecs

theorem lawful_toCodecs {fields : FixedCodecs τ} (h : fields.Lawful) : fields.toCodecs.Lawful := by
  induction fields with
  | nil => trivial
  | cons head tail ih => exact ⟨h.1.toCodec, ih h.2⟩

theorem joinFields_toCodecs (w : LengthWidth) {fields : FixedCodecs τ} (h : fields.Lawful)
    (as : τ) : joinFields w true (fields.toCodecs.fieldEncodings as) = .ok (fields.image as) := by
  induction fields with
  | nil => rfl
  | cons head tail ih =>
    obtain ⟨a, as⟩ := as
    rw [toCodecs, Codecs.fieldEncodings, joinFields, h.1.written_eq, ih h.2 as]
    rfl

theorem mixedFrom_toCodecs (w : LengthWidth) {fields : FixedCodecs τ} (h : fields.Lawful)
    (front rest : Bytes) (as : τ) :
    fields.toCodecs.MixedFrom w front rest as ↔ fields.ReadFrom front as := by
  induction fields generalizing front with
  | nil => exact Iff.rfl
  | cons head tail ih =>
    obtain ⟨a, as⟩ := as
    constructor
    · rintro ⟨first, second, rfl, ⟨own, hstands, ha⟩, hsecond⟩
      obtain ⟨hlen, rfl⟩ := (Codec.standsAs_sized h.1.size?_eq).mp hstands
      exact ⟨first, second, rfl, ⟨hlen, ha⟩, (ih h.2 second as).mp hsecond⟩
    · rintro ⟨first, second, rfl, ⟨hlen, ha⟩, hsecond⟩
      exact ⟨first, second, rfl,
        ⟨first, (Codec.standsAs_sized h.1.size?_eq).mpr ⟨hlen, rfl⟩, ha⟩,
        (ih h.2 second as).mpr hsecond⟩

end FixedCodecs

namespace Tuple

/-- **The check of the total length decides nothing** that reading the fields would not. -/
theorem decode_packed_eq_ok {fields : FixedCodecs τ} {bytes : Bytes}
    (hlen : bytes.length < wordLimit) {as : τ} :
    (packed fields).decode bytes = .ok as ↔ fields.ReadFrom bytes as := by
  have hread := (reads_readFixed fields).decodeWith_iff hlen (a := as)
  rw [PackedForm.decode, ← hread]
  split
  · rfl
  · rename_i htotal
    rw [hread]
    constructor
    · intro h
      cases h
    · exact fun h => absurd h.length_eq htotal

theorem decode_hybrid_eq_ok {head : FixedCodecs σ} {last : Codec β} {bytes : Bytes}
    (hlen : bytes.length < wordLimit) {p : σ × β} :
    (hybrid head last).decode bytes = .ok p ↔
      ∃ front back, bytes = front ++ back ∧ head.ReadFrom front p.1 ∧
        last.decode back = .ok p.2 := by
  refine ((reads_hybrid head last).decodeWith_iff hlen).trans ?_
  simp only [true_and]

theorem decode_mixed_eq_ok {fields : Codecs τ} {w : LengthWidth} {bytes : Bytes}
    (hlen : bytes.length < wordLimit) {as : τ} :
    (mixed fields).decode w bytes = .ok as ↔ fields.MixedFrom w bytes [] as :=
  (reads_readMixed w fields).decodeWith_iff hlen

theorem decode_dynamic_eq_ok {fields : Codecs τ} {w : LengthWidth} {bytes : Bytes}
    (hlen : bytes.length < wordLimit) {as : τ} :
    (dynamic fields).decode w bytes = .ok as ↔
      ∃ owns, fields.Decodes owns as ∧ dynamicBytes w owns = .ok bytes :=
  ((reads_dynamic w fields).decodeWith_iff hlen).trans (dynamicFrom_iff w fields bytes as)

end Tuple

/-- The packed form against the mixed one. -/
theorem Tuple.packed_coincides_mixed {fields : FixedCodecs τ} (h : fields.Lawful)
    (w : LengthWidth) :
    (packed fields).coder.Coincides ((mixed fields.toCodecs).coder w) where
  encode_eq as := by
    show (packed fields).encode as = (mixed fields.toCodecs).encode w as
    rw [encode_packed h, encode_mixed (FixedCodecs.lawful_toCodecs h),
      FixedCodecs.joinFields_toCodecs w h]
  decode_iff bytes hlen as := by
    show (packed fields).decode bytes = .ok as ↔ (mixed fields.toCodecs).decode w bytes = .ok as
    rw [decode_packed_eq_ok hlen, decode_mixed_eq_ok hlen, FixedCodecs.mixedFrom_toCodecs w h]

/-! ### One more field -/

namespace FixedCodecs

/-- The values of a tuple with one more field. -/
@[reducible]
def Followed (β : Type) : {σ : Type} → FixedCodecs σ → Type
  | _, .nil => β × Unit
  | _, .cons (α := α) _ tail => α × tail.Followed β

/-- Fields of fixed sizes, and one more. -/
def followedBy : {σ : Type} → (head : FixedCodecs σ) → Codec β → Codecs (head.Followed β)
  | _, .nil, last => .cons last .nil
  | _, .cons first tail, last => .cons first.toCodec (tail.followedBy last)

/-- Fields of fixed sizes, and one more of a fixed size. -/
def followedByFixed :
    {σ : Type} → (head : FixedCodecs σ) → FixedCodec β → FixedCodecs (head.Followed β)
  | _, .nil, last => .cons last .nil
  | _, .cons first tail, last => .cons first (tail.followedByFixed last)

/-- The last field of a tuple apart from the others. -/
def splitLast : {σ : Type} → (head : FixedCodecs σ) → head.Followed β → σ × β
  | _, .nil, (b, _) => ((), b)
  | _, .cons _ tail, values =>
    let rest := tail.splitLast values.2
    ((values.1, rest.1), rest.2)

/-- The last field of a tuple behind the others. -/
def joinLast : {σ : Type} → (head : FixedCodecs σ) → σ × β → head.Followed β
  | _, .nil, (_, b) => (b, ())
  | _, .cons _ tail, ((a, as), b) => (a, tail.joinLast (as, b))

/-- A tuple with one more field has the values of the pairs of a tuple and that field. -/
def regroup (head : FixedCodecs σ) (β : Type) : Iso (head.Followed β) (σ × β) where
  forth := head.splitLast
  back := head.joinLast
  back_forth values := by
    induction head with
    | nil => rfl
    | cons first tail ih => exact Prod.ext rfl (ih values.2)
  forth_back p := by
    induction head with
    | nil => rfl
    | cons first tail ih =>
      obtain ⟨⟨a, as⟩, b⟩ := p
      rw [joinLast, splitLast, ih (as, b)]

theorem lawful_followedBy {head : FixedCodecs σ} (hhead : head.Lawful) {last : Codec β}
    (hlast : last.Lawful) : (head.followedBy last).Lawful := by
  induction head with
  | nil => exact ⟨hlast, trivial⟩
  | cons first tail ih => exact ⟨hhead.1.toCodec, ih hhead.2⟩

theorem toCodecs_followedByFixed (head : FixedCodecs σ) (last : FixedCodec β) :
    (head.followedByFixed last).toCodecs = head.followedBy last.toCodec := by
  induction head with
  | nil => rfl
  | cons first tail ih => exact congrArg (Codecs.cons first.toCodec) ih

theorem lawful_followedByFixed {head : FixedCodecs σ} (hhead : head.Lawful) {last : FixedCodec β}
    (hlast : last.Lawful) : (head.followedByFixed last).Lawful := by
  induction head with
  | nil => exact ⟨hlast, trivial⟩
  | cons first tail ih => exact ⟨hhead.1, ih hhead.2⟩

end FixedCodecs

/-- A last field is read from all bytes that are left, be it for the size it promises or for its
being the last. -/
theorem Codec.KeepsSize.standsAs_end {c : Codec α} (h : c.KeepsSize) {w : LengthWidth}
    {bytes : Bytes} {a : α} :
    (∃ own, c.StandsAs w true own bytes [] ∧ c.decode own = .ok a) ↔ c.decode bytes = .ok a := by
  cases hsize : c.size? with
  | some size =>
    simp only [standsAs_sized hsize]
    constructor
    · rintro ⟨own, ⟨-, rfl⟩, ha⟩
      exact ha
    · intro ha
      exact ⟨bytes, ⟨h size hsize bytes a ha, rfl⟩, ha⟩
  | none =>
    simp only [standsAs_last hsize]
    constructor
    · rintro ⟨own, ⟨-, rfl⟩, ha⟩
      exact ha
    · intro ha
      exact ⟨bytes, ⟨trivial, rfl⟩, ha⟩

namespace FixedCodecs

/-- Nothing is recorded in front of fields of fixed sizes, nor in front of the last one. -/
theorem joinFields_followedBy (w : LengthWidth) {head : FixedCodecs σ} (hhead : head.Lawful)
    (last : Codec β) (values : head.Followed β) :
    joinFields w true ((head.followedBy last).fieldEncodings values) =
      (do
        let back ← last.encode (head.splitLast values).2
        return head.image (head.splitLast values).1 ++ back) := by
  induction head with
  | nil =>
    obtain ⟨b, u⟩ := values
    show ((last.fieldEncoding b).written w true >>= fun front => Except.ok (front ++ [])) = _
    rw [FieldEncoding.written_of_bare (Or.inr rfl)]
    simp only [List.append_nil]
    rfl
  | cons first tail ih =>
    obtain ⟨a, rest⟩ := values
    rw [followedBy, Codecs.fieldEncodings, joinFields, hhead.1.written_eq, ih hhead.2 rest,
      splitLast, image]
    cases last.encode (tail.splitLast rest).2 with
    | error fault => rfl
    | ok back => exact congrArg Except.ok (List.append_assoc ..).symm

/-- **Where nothing comes behind the last field**, the fields are read from what is next to each
other, whether the last one promises a size or takes what is left. -/
theorem mixedFrom_followedBy (w : LengthWidth) {head : FixedCodecs σ} (hhead : head.Lawful)
    {last : Codec β} (hlast : last.KeepsSize) (bytes : Bytes) (values : head.Followed β) :
    (head.followedBy last).MixedFrom w bytes [] values ↔
      ∃ front back, bytes = front ++ back ∧ head.ReadFrom front (head.splitLast values).1 ∧
        last.decode back = .ok (head.splitLast values).2 := by
  induction head generalizing bytes with
  | nil =>
    obtain ⟨b, u⟩ := values
    constructor
    · rintro ⟨back, second, rfl, ⟨own, hstands, hown⟩, rfl⟩
      exact ⟨[], back, List.append_nil back, rfl, hlast.standsAs_end.mp ⟨own, hstands, hown⟩⟩
    · rintro ⟨front, back, rfl, rfl, hback⟩
      exact ⟨back, [], (List.append_nil back).symm, hlast.standsAs_end.mpr hback, rfl⟩
  | cons first tail ih =>
    obtain ⟨a, rest⟩ := values
    -- It has a fixed size, so whether it is the last does not matter.
    have hfirst : ∀ own front behind,
        first.StandsAs w ((tail.followedBy last).count == 0) own front behind ↔
          own.length = first.size ∧ front = own := fun own front behind =>
      Codec.standsAs_sized hhead.1.size?_eq
    constructor
    · rintro ⟨start, others, rfl, ⟨own, hstands, ha⟩, hothers⟩
      obtain ⟨hlen, rfl⟩ := (hfirst _ _ _).mp hstands
      obtain ⟨front, back, rfl, hfront, hback⟩ := (ih hhead.2 others rest).mp hothers
      exact ⟨start ++ front, back, (List.append_assoc ..).symm,
        ⟨start, front, rfl, ⟨hlen, ha⟩, hfront⟩, hback⟩
    · rintro ⟨_, back, rfl, ⟨start, front, rfl, ⟨hlen, ha⟩, hfront⟩, hback⟩
      exact ⟨start, front ++ back, List.append_assoc ..,
        ⟨start, (hfirst _ _ _).mpr ⟨hlen, rfl⟩, ha⟩,
        (ih hhead.2 _ rest).mpr ⟨front, back, rfl, hfront, hback⟩⟩

end FixedCodecs

/-- The mixed form against the hybrid one. -/
theorem Tuple.mixed_coincides_hybrid {head : FixedCodecs σ} (hhead : head.Lawful) {last : Codec β}
    (hlast : last.Lawful) (hkeeps : last.KeepsSize) (w : LengthWidth) :
    ((mixed (head.followedBy last)).coder w).Coincides
      ((hybrid head last).imap (head.regroup β)).coder where
  encode_eq values := by
    show (mixed (head.followedBy last)).encode w values =
      (hybrid head last).encode (head.splitLast values)
    rw [encode_mixed (FixedCodecs.lawful_followedBy hhead hlast),
      FixedCodecs.joinFields_followedBy w hhead, ← encode_hybrid hhead hlast]
  decode_iff bytes hlen values := by
    show (mixed (head.followedBy last)).decode w bytes = .ok values ↔
      ((hybrid head last).imap (head.regroup β)).decode bytes = .ok values
    rw [HybridForm.decode_imap_eq_ok, decode_mixed_eq_ok hlen, decode_hybrid_eq_ok hlen]
    exact FixedCodecs.mixedFrom_followedBy w hhead hkeeps bytes values

/-! ### A single field -/

/-- A single field has the values of the tuple of that field. -/
def Iso.single (β : Type) : Iso (β × Unit) β where
  forth := Prod.fst
  back b := (b, ())
  back_forth _ := rfl
  forth_back _ := rfl

/-- Behind no fields, the last one is encoded as itself. -/
theorem Tuple.hybrid_coincides_single {only : Codec β} (h : only.Lawful) :
    ((hybrid .nil only).imap (FixedCodecs.nil.regroup β)).coder.Coincides
      (only.imap (.single β)).coder where
  encode_eq values := by
    have hnil : FixedCodecs.nil.Lawful := trivial
    show (hybrid .nil only).encode ((), values.1) = only.encode values.1
    rw [encode_hybrid hnil h]
    exact bind_pure (only.encode values.1)
  decode_iff bytes hlen values := by
    show ((hybrid .nil only).imap (FixedCodecs.nil.regroup β)).decode bytes = .ok values ↔
      (only.imap (.single β)).decode bytes = .ok values
    rw [HybridForm.decode_imap_eq_ok, decode_hybrid_eq_ok hlen, Codec.decode_imap_eq_ok]
    constructor
    · rintro ⟨front, back, rfl, rfl, hback⟩
      exact hback
    · exact fun hbytes => ⟨[], bytes, rfl, rfl, hbytes⟩

/-- No lengths are recorded of a single field. -/
theorem Tuple.dynamic_coincides_single (only : Codec β) (w : LengthWidth) :
    ((dynamic (.cons only .nil)).coder w).Coincides (only.imap (.single β)).coder where
  encode_eq values := by
    show (dynamic (.cons only .nil)).encode w values = only.encode values.1
    rw [DynamicForm.encode_eq]
    show (only.encode values.1 >>= fun field => Except.ok [field]) >>= dynamicBytes w = _
    rw [bind_assoc]
    cases only.encode values.1 with
    | error fault => rfl
    | ok field => exact congrArg Except.ok (List.append_nil field)
  decode_iff bytes hlen values := by
    show (dynamic (.cons only .nil)).decode w bytes = .ok values ↔
      (only.imap (.single β)).decode bytes = .ok values
    rw [decode_dynamic_eq_ok hlen, Codec.decode_imap_eq_ok]
    constructor
    · rintro ⟨_, ⟨own, others, rfl, hown, rfl⟩, hbytes⟩
      rw [← Except.ok.inj hbytes]
      show only.decode (own ++ []) = _
      rw [List.append_nil]
      exact hown
    · intro hbytes
      exact ⟨[bytes], ⟨bytes, [], rfl, hbytes, rfl⟩, congrArg Except.ok (List.append_nil bytes)⟩

/-! ### All of it -/

/-- **The forms coincide where they overlap.** For a tuple of fields of fixed sizes and a last one,
the mixed form with lengths of any width and the hybrid form write the same bytes or fail alike, and
accept the same byte strings for the same values; so does the packed form if the last field has a
fixed size too. For a single field the dynamic form does as well, with lengths of any width, and all
of them are the encoding of the field itself. -/
theorem forms_coincide :
    (∀ {σ β : Type} (head : FixedShapes σ) (last : Shape β) (w w' : LengthWidth),
      let mixed := Tuple.mixed (head.codecs.followedBy last.codec)
      let hybrid := (Tuple.hybrid head.codecs last.codec).imap (head.codecs.regroup β)
      (mixed.coder w).Coincides hybrid.coder ∧ (mixed.coder w).Coincides (mixed.coder w')) ∧
    (∀ {σ β : Type} (head : FixedShapes σ) (last : FixedShape β) (w : LengthWidth),
      let packed := Tuple.packed (head.codecs.followedByFixed last.codec)
      let mixed := Tuple.mixed (head.codecs.followedBy last.codec.toCodec)
      let hybrid := (Tuple.hybrid head.codecs last.codec.toCodec).imap (head.codecs.regroup β)
      packed.coder.Coincides hybrid.coder ∧ packed.coder.Coincides (mixed.coder w)) ∧
    (∀ {β : Type} (only : Shape β) (w : LengthWidth),
      let own := (only.codec.imap (.single β)).coder
      let hybrid := (Tuple.hybrid .nil only.codec).imap (FixedCodecs.nil.regroup β)
      ((Tuple.dynamic (.cons only.codec .nil)).coder w).Coincides own ∧
      ((Tuple.mixed (.cons only.codec .nil)).coder w).Coincides own ∧
      hybrid.coder.Coincides own) ∧
    (∀ {β : Type} (only : FixedShape β),
      (Tuple.packed (.cons only.codec .nil)).coder.Coincides
        (only.codec.toCodec.imap (.single β)).coder) := by
  have hmixed {σ β : Type} (head : FixedShapes σ) (last : Shape β) (w : LengthWidth) :=
    Tuple.mixed_coincides_hybrid head.lawful last.lawful last.keepsSize w
  have hpacked {σ β : Type} (head : FixedShapes σ) (last : FixedShape β) (w : LengthWidth) :
      (Tuple.packed (head.codecs.followedByFixed last.codec)).coder.Coincides
        ((Tuple.mixed (head.codecs.followedBy last.codec.toCodec)).coder w) := by
    rw [← FixedCodecs.toCodecs_followedByFixed]
    exact Tuple.packed_coincides_mixed
      (FixedCodecs.lawful_followedByFixed head.lawful last.lawful) w
  have hsingle {β : Type} (only : Shape β) := Tuple.hybrid_coincides_single only.lawful
  refine ⟨fun head last w w' => ?_, fun head last w => ?_, fun only w => ?_, fun only => ?_⟩
  · exact ⟨hmixed head last w, (hmixed head last w).trans (hmixed head last w').symm⟩
  · exact ⟨(hpacked head last w).trans (hmixed head (.fixed last) w), hpacked head last w⟩
  · exact ⟨Tuple.dynamic_coincides_single only.codec w, (hmixed .nil only w).trans (hsingle only),
      hsingle only⟩
  · exact ((hpacked .nil only .standard).trans (hmixed .nil (.fixed only) .standard)).trans
      (hsingle (.fixed only))

/-- A byte and a text: what the hybrid form makes of them, the mixed form does with lengths of any
width. -/
theorem forms_coincide_at_byte_and_text :
    let mixed := Tuple.mixed ((FixedShapes.cons .byte .nil).codecs.followedBy Shape.text.codec)
    mixed.encode .one (7, "a", ()) = .ok [7, 97] ∧ ([7, 97] : Bytes).length < wordLimit ∧
    mixed.decode .two [7, 97] = .ok (7, "a", ()) := by
  intro mixed
  obtain ⟨hlast, -⟩ := forms_coincide
  have hmixed (w : LengthWidth) := (hlast (.cons .byte .nil) .text w w).1
  have hfits : ([7, 97] : Bytes).length < wordLimit := by decide
  exact ⟨((hmixed .one).encode_eq (7, "a", ())).trans (by decide +kernel), hfits,
    ((hmixed .two).decode_iff [7, 97] hfits (7, "a", ())).mpr rfl⟩

end WireForm
