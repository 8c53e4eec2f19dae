import WireForm.Proofs.Composite
import WireForm.Proofs.Reading

/-!
# How records are read

The readers of records keep the reading contract, each with a relation that follows the fields.
The relations mention the codecs of the fields only through what they decode, so both questions
about a composite come down to its fields: whether what was encoded is decoded, and whether what is
decoded is encoded in the same way.

In the mixed form the place where a field ends is found in one of three ways: by its size, by a
length in front of it, or by there being nothing behind it. `Codec.StandsAs` is the case
distinction, once for writing and reading.

## Main definitions

* `Codec.StandsAs` — how a field stands in a mixed record
* `FixedCodecs.ReadFrom`, `Codecs.MixedFrom`, `Codecs.Decodes` — fields next to each other, in a
  mixed record, and each on its own

## Main results

* `Tuple.reads_readFixed`, `Tuple.reads_hybrid`, `Tuple.reads_readMixed`, `Tuple.reads_dynamic` —
  the readers of records
* `Tuple.dynamicFrom_iff` — what a dynamic record is read from is what its writer appends
-/

namespace WireForm

variable {α β τ : Type}

/-! ### A field of a mixed record -/

/-- The encoding `own` of a field stands as `front` in a mixed record, where `rest` comes behind
it. -/
def Codec.StandsAs (c : Codec α) (w : LengthWidth) (isLast : Bool) (own front rest : Bytes) :
    Prop :=
  match c.size? with
  | some size => own.length = size ∧ front = own
  | none => if isLast then rest = [] ∧ front = own else w.frame own = .ok front

section StandsAs

variable {c : Codec α} {w : LengthWidth} {isLast : Bool} {own front rest : Bytes} {a : α}

theorem Codec.standsAs_sized {size : Nat} (hsize : c.size? = some size) :
    c.StandsAs w isLast own front rest ↔ own.length = size ∧ front = own := by
  rw [StandsAs, hsize]

theorem Codec.standsAs_last (hsize : c.size? = none) :
    c.StandsAs w true own front rest ↔ rest = [] ∧ front = own := by
  rw [StandsAs, hsize]
  rfl

theorem Codec.standsAs_framed (hsize : c.size? = none) :
    c.StandsAs w false own front rest ↔ w.frame own = .ok front := by
  rw [StandsAs, hsize]
  rfl

theorem Reader.reads_field (w : LengthWidth) (c : Codec α) (isLast : Bool) :
    Reads (field w c isLast) fun front rest a =>
      ∃ own, c.StandsAs w isLast own front rest ∧ c.decode own = .ok a := by
  cases hsize : c.size? with
  | some size =>
    rw [show field w c isLast = sized c size by rw [field, hsize]]
    simp only [Codec.standsAs_sized hsize]
    refine (reads_sized c size).congr fun front rest a => ?_
    constructor
    · rintro ⟨hlen, ha⟩
      exact ⟨front, ⟨hlen, rfl⟩, ha⟩
    · rintro ⟨own, ⟨hlen, rfl⟩, ha⟩
      exact ⟨hlen, ha⟩
  | none =>
    cases isLast with
    | true =>
      rw [show field w c true = Reader.rest c by rw [field, hsize]; rfl]
      simp only [Codec.standsAs_last hsize]
      refine (reads_rest c).congr fun front rest a => ?_
      constructor
      · rintro ⟨hrest, ha⟩
        exact ⟨front, ⟨hrest, rfl⟩, ha⟩
      · rintro ⟨own, ⟨hrest, rfl⟩, ha⟩
        exact ⟨hrest, ha⟩
    | false =>
      rw [show field w c false = measured w c by rw [field, hsize]; rfl]
      simp only [Codec.standsAs_framed hsize]
      exact reads_measured w c

theorem Codec.isSized_fieldEncoding {size? : Option Nat} (hsize : c.size? = size?) :
    (c.fieldEncoding a).isSized = size?.isSome := by
  rw [fieldEncoding, isSized, hsize]

/-- Where a field is read, its writer put it. -/
theorem Codec.StandsAs.written_eq (h : c.StandsAs w isLast own front rest)
    (hown : c.encode a = .ok own) : (c.fieldEncoding a).written w isLast = .ok front := by
  cases hsize : c.size? with
  | some size =>
    have hsized : (c.fieldEncoding a).isSized := isSized_fieldEncoding hsize
    obtain ⟨-, rfl⟩ := (standsAs_sized hsize).mp h
    rw [FieldEncoding.written_of_bare (Or.inl hsized)]
    exact hown
  | none =>
    have hsized : (c.fieldEncoding a).isSized = false := isSized_fieldEncoding hsize
    cases isLast with
    | true =>
      obtain ⟨-, rfl⟩ := (standsAs_last hsize).mp h
      rw [FieldEncoding.written_of_bare (Or.inr rfl)]
      exact hown
    | false =>
      rw [FieldEncoding.written_of_framed (by simp [hsized])]
      exact Outcome.bind_eq_ok.mpr ⟨own, hown, (standsAs_framed hsize).mp h⟩

/-- Where a field was written, it is read, if nothing comes behind one that has to be the last. -/
theorem Codec.Lawful.standsAs (h : c.Lawful)
    (hwritten : (c.fieldEncoding a).written w isLast = .ok front) (hrest : isLast → rest = []) :
    ∃ own, c.encode a = .ok own ∧ c.StandsAs w isLast own front rest := by
  cases hsize : c.size? with
  | some size =>
    have hsized : (c.fieldEncoding a).isSized := isSized_fieldEncoding hsize
    rw [FieldEncoding.written_of_bare (Or.inl hsized)] at hwritten
    obtain ⟨own, hown, hlen⟩ := h.sized size hsize a
    obtain rfl : own = front := Except.ok.inj (hown.symm.trans hwritten)
    exact ⟨own, hown, (standsAs_sized hsize).mpr ⟨hlen, rfl⟩⟩
  | none =>
    have hsized : (c.fieldEncoding a).isSized = false := isSized_fieldEncoding hsize
    cases isLast with
    | true =>
      rw [FieldEncoding.written_of_bare (Or.inr rfl)] at hwritten
      exact ⟨front, hwritten, (standsAs_last hsize).mpr ⟨hrest rfl, rfl⟩⟩
    | false =>
      rw [FieldEncoding.written_of_framed (by simp [hsized])] at hwritten
      obtain ⟨own, hown, hframe⟩ := Outcome.bind_eq_ok.mp hwritten
      exact ⟨own, hown, (standsAs_framed hsize).mpr hframe⟩

end StandsAs

/-! ### Fields next to each other -/

/-- The bytes of fields of fixed sizes. -/
def FixedCodecs.ReadFrom : {τ : Type} → FixedCodecs τ → Bytes → τ → Prop
  | _, .nil, front, _ => front = []
  | _, .cons head tail, front, (a, as) => ∃ first second, front = first ++ second ∧
      (first.length = head.size ∧ head.decode first = .ok a) ∧ tail.ReadFrom second as

/-- The bytes of the fields of a mixed record, of which those behind decide how a field ends. -/
def Codecs.MixedFrom (w : LengthWidth) : {τ : Type} → Codecs τ → Bytes → Bytes → τ → Prop
  | _, .nil, front, _, _ => front = []
  | _, .cons head tail, front, rest, (a, as) => ∃ first second, front = first ++ second ∧
      (∃ own, head.StandsAs w (tail.count == 0) own first (second ++ rest) ∧
        head.decode own = .ok a) ∧
      tail.MixedFrom w second rest as

/-- Each field is decoded from its own bytes. -/
def Codecs.Decodes : {τ : Type} → Codecs τ → List Bytes → τ → Prop
  | _, .nil, owns, _ => owns = []
  | _, .cons head tail, owns, (a, as) =>
    ∃ own others, owns = own :: others ∧ head.decode own = .ok a ∧ tail.Decodes others as

theorem Codecs.Decodes.length_eq {fields : Codecs τ} {owns : List Bytes} {as : τ}
    (h : fields.Decodes owns as) : owns.length = fields.count := by
  induction fields generalizing owns with
  | nil => rw [h]; rfl
  | cons head tail ih =>
    obtain ⟨a, as⟩ := as
    obtain ⟨own, others, rfl, -, hothers⟩ := h
    rw [List.length_cons, ih hothers, Codecs.count]

namespace Tuple

theorem reads_readFixed (fields : FixedCodecs τ) :
    Reads (readFixed fields) fun front _ as => fields.ReadFrom front as := by
  induction fields with
  | nil => exact Reads.pure ()
  | cons head tail ih => exact (Reader.reads_fixed head).pair ih

theorem reads_hybrid (head : FixedCodecs τ) (last : Codec β) :
    Reads (hybrid head last).read fun front rest p =>
      ∃ first second, front = first ++ second ∧ head.ReadFrom first p.1 ∧ rest = [] ∧
        last.decode second = .ok p.2 :=
  (reads_readFixed head).pair (Reader.reads_rest last)

theorem reads_readMixed (w : LengthWidth) (fields : Codecs τ) :
    Reads (readMixed w fields) fun front rest as => fields.MixedFrom w front rest as := by
  induction fields with
  | nil =>
    rw [readMixed]
    exact Reads.pure ()
  | cons head tail ih =>
    rw [readMixed_cons]
    exact (Reader.reads_field w head _).pair ih

/-- The field with number `index` takes as many bytes as the list of lengths says there. -/
theorem reads_readSized (lens : List Nat) (index : Nat) (fields : Codecs τ) :
    Reads (readSized lens index fields) fun front _ as => ∃ owns, fields.Decodes owns as ∧
      front = owns.flatten ∧ owns.map List.length <+: lens.drop index := by
  induction fields generalizing index with
  | nil =>
    rw [readSized]
    refine (Reads.pure ()).congr fun front _ _ => ?_
    constructor
    · rintro rfl
      exact ⟨[], rfl, rfl, List.nil_prefix⟩
    · rintro ⟨owns, rfl, rfl, -⟩
      rfl
  | cons head tail ih =>
    rw [readSized]
    cases hlen : lens[index]? with
    | none =>
      have hdrop : lens.drop index = [] :=
        List.drop_eq_nil_iff.mpr (List.getElem?_eq_none_iff.mp hlen)
      refine (Reads.lift crash).congr fun front _ as => ?_
      constructor
      · rintro ⟨-, hcrash⟩
        cases hcrash
      · rintro ⟨owns, ⟨own, others, rfl, -⟩, -, hprefix⟩
        rw [hdrop, List.prefix_nil] at hprefix
        cases hprefix
    | some len =>
      have hdrop : lens.drop index = len :: lens.drop (index + 1) := by
        obtain ⟨hlt, rfl⟩ := List.getElem?_eq_some_iff.mp hlen
        exact List.drop_eq_getElem_cons hlt
      refine ((Reader.reads_sized head len).pair (ih (index + 1))).congr fun front _ as => ?_
      rw [hdrop]
      constructor
      · rintro ⟨first, second, rfl, ⟨rfl, ha⟩, owns, howns, rfl, hprefix⟩
        exact ⟨first :: owns, ⟨first, owns, rfl, ha, howns⟩, rfl,
          List.cons_prefix_cons.mpr ⟨rfl, hprefix⟩⟩
      · rintro ⟨owns, ⟨own, others, rfl, ha, hothers⟩, rfl, hprefix⟩
        obtain ⟨hown, hprefix⟩ := List.cons_prefix_cons.mp hprefix
        exact ⟨own, others.flatten, rfl, ⟨hown, ha⟩, others, hothers, rfl, hprefix⟩

end Tuple

/-! ### The header of a dynamic record -/

theorem Writer.headerBytes_eq_ok {w : LengthWidth} {lens : List Nat} {front : Bytes} :
    headerBytes w lens = .ok front ↔
      ∃ bs, front = bs.flatten ∧ List.Forall₂ (fun b len => w.lengthBytes len = .ok b) bs lens := by
  induction lens generalizing front with
  | nil =>
    rw [headerBytes, Except.ok.injEq]
    constructor
    · rintro rfl
      exact ⟨[], rfl, .nil⟩
    · rintro ⟨bs, rfl, hbs⟩
      rw [List.forall₂_nil_right_iff.mp hbs]
      rfl
  | cons len lens ih =>
    constructor
    · intro h
      obtain ⟨length, hlength, h⟩ := Outcome.bind_eq_ok.mp h
      obtain ⟨header, hheader, h⟩ := Outcome.bind_eq_ok.mp h
      obtain ⟨bs, rfl, hbs⟩ := ih.mp hheader
      exact ⟨length :: bs, (Except.ok.inj h).symm, .cons hlength hbs⟩
    · rintro ⟨_, rfl, hbs⟩
      obtain ⟨length, bs, hlength, hothers, rfl⟩ := List.forall₂_cons_right_iff.mp hbs
      rw [headerBytes, hlength, ih.mpr ⟨bs, rfl, hothers⟩]
      rfl

/-- Cutting a header into lengths recovers those that were put next to each other. -/
theorem recoverLengths_eq_ok {w : LengthWidth} {count : Nat} {header : Bytes} {lens : List Nat} :
    (header.length = count * w.bytes ∧
        (chunks w.bytes header >>= (·.mapM w.recover)) = .ok lens) ↔
      lens.length = count ∧ Writer.headerBytes w lens = .ok header := by
  rw [Writer.headerBytes_eq_ok]
  constructor
  · rintro ⟨hlen, h⟩
    rw [Nat.mul_comm] at hlen
    obtain ⟨bs, rfl, hbs⟩ := exists_flatten_eq count header hlen
    rw [chunks_flatten w.bytes_pos hbs, Outcome.ok_bind, Outcome.mapM_eq_ok] at h
    rw [length_flatten_of_forall hbs] at hlen
    refine ⟨?_, bs, rfl, h.imp fun b len => LengthWidth.recover_eq_ok_iff.mp⟩
    rw [← h.length_eq]
    exact Nat.eq_of_mul_eq_mul_left w.bytes_pos hlen
  · rintro ⟨rfl, bs, rfl, hbs⟩
    have hsize : ∀ b ∈ bs, b.length = w.bytes :=
      forall_mem_of_forall₂ hbs fun _ _ hlen => LengthWidth.length_lengthBytes hlen
    rw [length_flatten_of_forall hsize, hbs.length_eq, chunks_flatten w.bytes_pos hsize,
      Outcome.ok_bind, Outcome.mapM_eq_ok]
    exact ⟨Nat.mul_comm _ _, hbs.imp fun b len => LengthWidth.recover_eq_ok_iff.mpr⟩

namespace Reader

theorem sumLengths?_of_lt {total : Nat} {lens : List Nat} (h : total + lens.sum < wordLimit) :
    sumLengths? total lens = some (total + lens.sum) := by
  induction lens generalizing total with
  | nil => rfl
  | cons len lens ih =>
    rw [List.sum_cons, ← Nat.add_assoc] at h ⊢
    rw [sumLengths?, Length.add?, if_pos (by omega)]
    exact ih h

theorem eq_of_sumLengths?_eq_some {total sum : Nat} {lens : List Nat}
    (h : sumLengths? total lens = some sum) : sum = total + lens.sum := by
  induction lens generalizing total with
  | nil => exact (Option.some.inj h).symm
  | cons len lens ih =>
    obtain ⟨next, hnext, h⟩ := Option.bind_eq_some_iff.mp h
    rw [Length.add?] at hnext
    split at hnext
    · rw [ih h, ← Option.some.inj hnext, List.sum_cons, Nat.add_assoc]
    · cases hnext

/-- What the recorded lengths leave of the window is the length of the last field. -/
def lastLength (lens : List Nat) : Step View (List Nat) :=
  match sumLengths? 0 lens with
  | none => Step.refuse (.sizeOverflow .fieldLengths)
  | some total => do
    let v ← Step.get
    if v.len < total then Step.refuse (.bufferOverrun v.offset total v.len)
    else return lens ++ [v.len - total]

theorem reads_lastLength (lens : List Nat) :
    Reads (lastLength lens) fun front rest all =>
      front = [] ∧ lens.sum ≤ rest.length ∧ all = lens ++ [rest.length - lens.sum] where
  sound v all v' h := by
    cases htotal : sumLengths? 0 lens with
    | none =>
      rw [lastLength, htotal] at h
      cases (Prod.mk.inj h).1
    | some total =>
      obtain rfl : total = lens.sum := by rw [eq_of_sumLengths?_eq_some htotal, Nat.zero_add]
      rw [lastLength, htotal] at h
      replace h : (if v.len < lens.sum then
          Step.refuse (.bufferOverrun v.offset lens.sum v.len)
        else pure (lens ++ [v.len - lens.sum]) : Step View (List Nat)) v = (.ok all, v') := h
      split at h
      · cases (Prod.mk.inj h).1
      · rename_i hle
        obtain ⟨hall, rfl⟩ := Prod.mk.inj h
        refine ⟨[], View.Splits.refl v, rfl, ?_, ?_⟩
        · rw [← v.len_eq]
          omega
        · rw [← v.len_eq, ← Except.ok.inj hall]
  complete v all v' front hv hsplit := by
    rintro ⟨rfl, hle, rfl⟩
    obtain rfl : v' = v := hsplit.unique (View.Splits.refl v)
    have hfits : v'.offset + v'.len < wordLimit := hv
    rw [← v'.len_eq] at hle ⊢
    have hsum : sumLengths? 0 lens = some lens.sum := by
      rw [sumLengths?_of_lt (by omega), Nat.zero_add]
    rw [lastLength, hsum]
    show (if v'.len < lens.sum then _ else _ : Step View (List Nat)) v' = _
    rw [if_neg (Nat.not_lt.mpr hle)]
    rfl

theorem reads_recordedLengths (w : LengthWidth) (count : Nat) :
    Reads (do
        let header ← View.take (count * w.bytes)
        Step.lift (chunks w.bytes header >>= (·.mapM w.recover))) fun front _ lens =>
      lens.length = count ∧ Writer.headerBytes w lens = .ok front :=
  ((View.reads_take (count * w.bytes)).bind_lift _).congr fun front rest lens => by
    rw [← recoverLengths_eq_ok]
    constructor
    · rintro ⟨header, ⟨hlen, rfl⟩, hlens⟩
      exact ⟨hlen, hlens⟩
    · rintro ⟨hlen, hlens⟩
      exact ⟨front, ⟨hlen, rfl⟩, hlens⟩

/-- The header of a dynamic record of some number of fields has the lengths of all but the last,
which comes from what stands behind the header. -/
def HeaderFrom (w : LengthWidth) : Nat → Bytes → Bytes → List Nat → Prop
  | 0, front, _, lens => front = [] ∧ lens = []
  | before + 1, front, rest, lens => ∃ recorded : List Nat,
      (recorded.length = before ∧ Writer.headerBytes w recorded = .ok front) ∧
      recorded.sum ≤ rest.length ∧ lens = recorded ++ [rest.length - recorded.sum]

theorem dynamicHeader_succ (w : LengthWidth) {before headerLen : Nat}
    (h : Length.mul? before w.bytes = some headerLen) :
    dynamicHeader w (before + 1) = ((do
        let header ← View.take headerLen
        Step.lift (chunks w.bytes header >>= (·.mapM w.recover))) >>= lastLength) := by
  rw [dynamicHeader, h, bind_assoc]
  rfl

theorem reads_dynamicHeader (w : LengthWidth) (count : Nat) :
    Reads (dynamicHeader w count) (HeaderFrom w count) := by
  cases count with
  | zero =>
    refine (Reads.lift (.ok [])).congr fun front rest lens => ?_
    rw [HeaderFrom, Except.ok.injEq, eq_comm (a := [])]
  | succ before =>
    by_cases hword : before * w.bytes < wordLimit
    · rw [dynamicHeader_succ w (if_pos hword)]
      have hreads := (reads_recordedLengths w before).bind reads_lastLength
      refine hreads.congr fun front rest lens => ?_
      constructor
      · rintro ⟨first, second, recorded, rfl, hfirst, rfl, hlast⟩
        exact ⟨recorded, by simpa using hfirst, hlast⟩
      · rintro ⟨recorded, hfirst, hlast⟩
        exact ⟨front, [], recorded, by simp, hfirst, rfl, hlast⟩
    · have hmul : Length.mul? before w.bytes = none := if_neg hword
      have hrefuse : dynamicHeader w (before + 1) =
          Step.refuse (.sizeOverflow .headerLength) := by rw [dynamicHeader, hmul]
      rw [hrefuse]
      refine ⟨fun v lens v' h => ?_, fun v lens v' front hv hsplit h => ?_⟩
      · cases (Prod.mk.inj h).1
      -- A header that long would not fit the window.
      obtain ⟨recorded, hrecorded, -⟩ := h
      obtain ⟨hlen, -⟩ := recoverLengths_eq_ok.mpr hrecorded
      have hsplitLen := hsplit.len_eq
      have hfits : v.offset + v.len < wordLimit := hv
      omega

theorem length_of_headerFrom {w : LengthWidth} {count : Nat} {front rest : Bytes} {lens : List Nat}
    (h : HeaderFrom w count front rest lens) : lens.length = count := by
  cases count with
  | zero => rw [h.2]; rfl
  | succ before =>
    obtain ⟨recorded, ⟨hlen, -⟩, -, rfl⟩ := h
    rw [List.length_append, hlen]
    rfl

/-- In front of the fields themselves, a header gives their lengths if it has those of all but the
last. -/
theorem headerFrom_flatten {w : LengthWidth} {first : Bytes} (owns : List Bytes) :
    HeaderFrom w owns.length first owns.flatten (owns.map List.length) ↔
      Writer.headerBytes w (owns.dropLast.map List.length) = .ok first := by
  rcases List.eq_nil_or_concat owns with rfl | ⟨init, last, rfl⟩
  · show (first = [] ∧ ([] : List Nat) = []) ↔ (Except.ok [] : Outcome Bytes) = .ok first
    simp [eq_comm]
  · have hlast : (init ++ [last]).flatten.length - (init.map List.length).sum = last.length := by
      rw [List.flatten_append, List.length_append, List.length_flatten]
      simp
    rw [List.concat_eq_append, List.dropLast_concat, List.length_append, List.map_append]
    constructor
    · rintro ⟨recorded, ⟨-, hheader⟩, -, hlens⟩
      obtain ⟨hinit, -⟩ := List.append_inj' hlens rfl
      rw [hinit]
      exact hheader
    · intro hheader
      refine ⟨init.map List.length, ⟨List.length_map _, hheader⟩, ?_, ?_⟩
      · rw [List.flatten_append, List.length_append, List.length_flatten]
        omega
      · rw [hlast]
        rfl

end Reader

theorem Tuple.reads_dynamic (w : LengthWidth) (fields : Codecs τ) :
    Reads (do
        let lens ← Reader.dynamicHeader w fields.count
        readSized lens 0 fields) fun front rest as =>
      ∃ first second lens, front = first ++ second ∧
        Reader.HeaderFrom w fields.count first (second ++ rest) lens ∧
        ∃ owns, fields.Decodes owns as ∧ second = owns.flatten ∧
          owns.map List.length <+: lens.drop 0 :=
  (Reader.reads_dynamicHeader w fields.count).bind fun lens => reads_readSized lens 0 fields

/-- **A dynamic record is read from what writing its fields gives**, whatever the codecs of the
fields make of them. -/
theorem Tuple.dynamicFrom_iff (w : LengthWidth) (fields : Codecs τ) (bytes : Bytes) (as : τ) :
    (∃ first second lens, bytes = first ++ second ∧
        Reader.HeaderFrom w fields.count first (second ++ []) lens ∧
        ∃ owns, fields.Decodes owns as ∧ second = owns.flatten ∧
          owns.map List.length <+: lens.drop 0) ↔
      ∃ owns, fields.Decodes owns as ∧ dynamicBytes w owns = .ok bytes := by
  constructor
  · rintro ⟨first, second, lens, rfl, hheader, owns, howns, rfl, hprefix⟩
    obtain rfl : owns.map List.length = lens := by
      refine hprefix.eq_of_length ?_
      rw [List.length_map, howns.length_eq, List.drop_zero, Reader.length_of_headerFrom hheader]
    rw [← howns.length_eq, List.append_nil] at hheader
    refine ⟨owns, howns, ?_⟩
    rw [dynamicBytes, (Reader.headerFrom_flatten owns).mp hheader]
    rfl
  · rintro ⟨owns, howns, hbytes⟩
    obtain ⟨first, hfirst, hbytes⟩ := Outcome.bind_eq_ok.mp hbytes
    refine ⟨first, owns.flatten, owns.map List.length, (Except.ok.inj hbytes).symm, ?_, owns, howns,
      rfl, List.prefix_rfl⟩
    rw [← howns.length_eq, List.append_nil]
    exact (Reader.headerFrom_flatten owns).mpr hfirst

end WireForm
