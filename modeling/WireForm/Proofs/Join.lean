import WireForm.Proofs.Appending

/-!
# Fields side by side

What a mixed record or a sequence encodes to can be said without a shared buffer: encode every field
on its own, put a length in front of those that need one, and concatenate. `joinFields` does that.
It is the reference that the writers are compared with, and it is where all questions about *which*
field fails, and how, are settled.

Records and sequences differ only in the last field. A record ends where its last field does, so
that one is bare; in a sequence every value that has no fixed size is framed, the last included.

## Main definitions

* `FieldEncoding` — a field, as far as a composite can tell fields apart
* `FieldEncoding.written`, `joinFields` — the reference
* `FieldEncoding.Fits`, `FieldEncoding.FailsWith` — what becomes of one field
* `IsJoin` — an outcome is the concatenation, and succeeds and fails as the fields do

## Main results

* `joinFields_append`, `joinFields_eq_ok` — the reference as a concatenation, if none is bare
* `isJoin_joinFields` — the reference succeeds iff every field fits, and otherwise fails as the
  first field does that does not
-/

namespace WireForm

variable {α : Type}

/-- A field of a composite: whether its size is fixed, and its encoding in a buffer of its own. -/
structure FieldEncoding where
  /-- Whether all values of the field's type take the same number of bytes. -/
  isSized : Bool
  /-- The encoding of the field alone. -/
  own : Outcome Bytes

/-- A value of some codec as a field. -/
def Codec.fieldEncoding (c : Codec α) (a : α) : FieldEncoding := ⟨c.isSized, c.encode a⟩

namespace FieldEncoding

/-- The field as it stands in a composite: behind its length, unless its size is fixed or it is
`bare`. -/
def written (w : LengthWidth) (bare : Bool) (field : FieldEncoding) : Outcome Bytes :=
  if field.isSized ∨ bare then field.own else field.own >>= w.frame

/-- The field can be written: it encodes, and its length can be recorded if it has to be. -/
def Fits (w : LengthWidth) (bare : Bool) (field : FieldEncoding) : Prop :=
  ∃ bytes, field.own = .ok bytes ∧ (field.isSized ∨ bare ∨ bytes.length ≤ w.max)

/-- The field cannot be written: it does not encode, or it does and is too long. -/
def FailsWith (w : LengthWidth) (bare : Bool) (field : FieldEncoding) (fault : Fault) : Prop :=
  field.own = .error fault ∨
    ∃ bytes, field.own = .ok bytes ∧ field.isSized = false ∧ bare = false ∧
      w.max < bytes.length ∧ fault = .refused (.lengthTooLarge bytes.length w.max)

variable {w : LengthWidth} {bare : Bool} {field : FieldEncoding}

theorem written_of_bare (h : field.isSized ∨ bare) : field.written w bare = field.own := if_pos h

theorem written_of_framed (h : ¬ (field.isSized ∨ bare)) :
    field.written w bare = field.own >>= w.frame := if_neg h

theorem exists_written_iff : (∃ bytes, field.written w bare = .ok bytes) ↔ field.Fits w bare := by
  by_cases h : field.isSized ∨ bare
  · rw [written_of_bare h]
    constructor
    · rintro ⟨bytes, hbytes⟩
      exact ⟨bytes, hbytes, by tauto⟩
    · rintro ⟨bytes, hbytes, -⟩
      exact ⟨bytes, hbytes⟩
  · rw [written_of_framed h]
    constructor
    · rintro ⟨framed, hframed⟩
      obtain ⟨bytes, hbytes, hframe⟩ := Outcome.bind_eq_ok.mp hframed
      exact ⟨bytes, hbytes, Or.inr (Or.inr (LengthWidth.frame_eq_ok.mp hframe).1)⟩
    · rintro ⟨bytes, hbytes, hfits⟩
      have hle : bytes.length ≤ w.max := by tauto
      exact ⟨_, Outcome.bind_eq_ok.mpr ⟨bytes, hbytes, LengthWidth.frame_eq_ok.mpr ⟨hle, rfl⟩⟩⟩

theorem written_eq_error_iff {fault : Fault} :
    field.written w bare = .error fault ↔ field.FailsWith w bare fault := by
  by_cases h : field.isSized ∨ bare
  · rw [written_of_bare h]
    constructor
    · exact Or.inl
    · rintro (hown | ⟨bytes, -, hsized, hbare, -⟩)
      · exact hown
      · simp [hsized, hbare] at h
  · have hsized : field.isSized = false := by
      simpa using fun hs => h (Or.inl hs)
    have hbare : bare = false := by
      simpa using fun hb => h (Or.inr hb)
    rw [written_of_framed h, FailsWith]
    cases hown : field.own with
    | error e => simp
    | ok bytes =>
      rw [Outcome.ok_bind, LengthWidth.frame]
      by_cases hle : bytes.length ≤ w.max
      · rw [LengthWidth.lengthBytes_of_le hle]
        simp [hsized, hbare, Nat.not_lt.mpr hle]
      · have hlt := Nat.not_le.mp hle
        rw [LengthWidth.lengthBytes_of_lt hlt]
        simp [hsized, hbare, hlt, refuse, eq_comm]

end FieldEncoding

/-! ### The reference -/

/-- Fields one after the other, each as it is written, the last bare if `lastBare` says so. -/
def joinFields (w : LengthWidth) (lastBare : Bool) : List FieldEncoding → Outcome Bytes
  | [] => .ok []
  | field :: fields => do
    let front ← field.written w (lastBare && fields.isEmpty)
    let back ← joinFields w lastBare fields
    return front ++ back

variable {w : LengthWidth} {lastBare : Bool}

theorem exists_joinFields_iff (fields : List FieldEncoding) :
    (∃ bytes, joinFields w lastBare fields = .ok bytes) ↔
      ∀ before field after, fields = before ++ field :: after →
        field.Fits w (lastBare && after.isEmpty) := by
  induction fields with
  | nil =>
    refine ⟨fun _ before field after h => ?_, fun _ => ⟨[], rfl⟩⟩
    exact absurd h (by simp)
  | cons field fields ih =>
    constructor
    · rintro ⟨bytes, h⟩ before field' after hsplit
      obtain ⟨front, hfront, h⟩ := Outcome.bind_eq_ok.mp h
      obtain ⟨back, hback, -⟩ := Outcome.bind_eq_ok.mp h
      cases before with
      | nil =>
        obtain ⟨rfl, rfl⟩ := List.cons.inj hsplit
        exact FieldEncoding.exists_written_iff.mp ⟨front, hfront⟩
      | cons _ before =>
        exact ih.mp ⟨back, hback⟩ before field' after (List.cons.inj hsplit).2
    · intro h
      obtain ⟨front, hfront⟩ := FieldEncoding.exists_written_iff.mpr (h [] field fields rfl)
      obtain ⟨back, hback⟩ := ih.mpr fun before field' after hsplit =>
        h (field :: before) field' after (by rw [hsplit]; rfl)
      exact ⟨front ++ back, by rw [joinFields, hfront, hback]; rfl⟩

/-- The fault is that of the first field which cannot be written. The fields before it are not the
last, so none of them is bare. -/
theorem joinFields_eq_error_iff (fields : List FieldEncoding) {fault : Fault} :
    joinFields w lastBare fields = .error fault ↔
      ∃ before field after, fields = before ++ field :: after ∧
        (∀ earlier ∈ before, earlier.Fits w false) ∧
        field.FailsWith w (lastBare && after.isEmpty) fault := by
  induction fields with
  | nil =>
    refine ⟨fun h => (by cases h), ?_⟩
    rintro ⟨before, field, after, hsplit, -⟩
    exact absurd hsplit (by simp)
  | cons field fields ih =>
    rw [joinFields]
    constructor
    · intro h
      cases hfront : field.written w (lastBare && fields.isEmpty) with
      | error e =>
        rw [hfront, Outcome.error_bind] at h
        obtain rfl := Except.error.inj h
        exact ⟨[], field, fields, rfl, by simp, FieldEncoding.written_eq_error_iff.mp hfront⟩
      | ok front =>
        rw [hfront, Outcome.ok_bind] at h
        cases hback : joinFields w lastBare fields with
        | ok back => rw [hback] at h; cases h
        | error e =>
          rw [hback, Outcome.error_bind] at h
          obtain rfl := Except.error.inj h
          obtain ⟨before, field', after, rfl, hbefore, hfails⟩ := ih.mp hback
          refine ⟨field :: before, field', after, rfl, ?_, hfails⟩
          have hfits := FieldEncoding.exists_written_iff.mp ⟨front, hfront⟩
          rw [show (before ++ field' :: after).isEmpty = false by simp, Bool.and_false] at hfits
          exact List.forall_mem_cons.mpr ⟨hfits, hbefore⟩
    · rintro ⟨before, field', after, hsplit, hbefore, hfails⟩
      cases before with
      | nil =>
        obtain ⟨rfl, rfl⟩ := List.cons.inj hsplit
        rw [FieldEncoding.written_eq_error_iff.mpr hfails]
        rfl
      | cons first before =>
        obtain ⟨rfl, htail⟩ := List.cons.inj hsplit
        have htail : fields = before ++ field' :: after := htail
        subst htail
        obtain ⟨hfirst, hbefore⟩ := List.forall_mem_cons.mp hbefore
        obtain ⟨front, hfront⟩ := FieldEncoding.exists_written_iff.mpr hfirst
        rw [show (before ++ field' :: after).isEmpty = false by simp, Bool.and_false, hfront,
          Outcome.ok_bind, ih.mpr ⟨before, field', after, rfl, hbefore, hfails⟩]
        rfl

/-- The fields of two lists side by side are those of one behind those of the other. The first that
cannot be written is the first of the first list, or else of the second. -/
theorem joinFields_append (before after : List FieldEncoding) :
    joinFields w false (before ++ after) = (do
      let front ← joinFields w false before
      let back ← joinFields w false after
      return front ++ back) := by
  induction before with
  | nil =>
    show joinFields w false after = joinFields w false after >>= fun back => Except.ok ([] ++ back)
    cases joinFields w false after <;> rfl
  | cons field before ih =>
    rw [List.cons_append, joinFields, joinFields, ih, Bool.false_and, Bool.false_and]
    cases field.written w false with
    | error fault => rfl
    | ok first =>
      cases joinFields w false before with
      | error fault => rfl
      | ok front =>
        cases joinFields w false after with
        | error fault => rfl
        | ok back => exact congrArg Except.ok (List.append_assoc first front back).symm

/-- Fields side by side are the concatenation of what they are written as. -/
theorem joinFields_eq_ok {fields : List FieldEncoding} {bytes : Bytes} :
    joinFields w false fields = .ok bytes ↔ ∃ fronts : List Bytes, bytes = fronts.flatten ∧
      List.Forall₂ (fun front field => field.written w false = .ok front) fronts fields := by
  induction fields generalizing bytes with
  | nil =>
    rw [joinFields, Except.ok.injEq]
    constructor
    · rintro rfl
      exact ⟨[], rfl, .nil⟩
    · rintro ⟨fronts, rfl, hfronts⟩
      rw [List.forall₂_nil_right_iff.mp hfronts]
      rfl
  | cons field fields ih =>
    rw [joinFields, Bool.false_and]
    constructor
    · intro h
      obtain ⟨front, hfront, h⟩ := Outcome.bind_eq_ok.mp h
      obtain ⟨back, hback, h⟩ := Outcome.bind_eq_ok.mp h
      obtain ⟨fronts, rfl, hfronts⟩ := ih.mp hback
      exact ⟨front :: fronts, (Except.ok.inj h).symm, .cons hfront hfronts⟩
    · rintro ⟨_, rfl, hfronts⟩
      obtain ⟨front, fronts, hfront, hothers, rfl⟩ := List.forall₂_cons_right_iff.mp hfronts
      rw [hfront, ih.mpr ⟨fronts, rfl, hothers⟩]
      rfl

/-- The outcome `o` is the concatenation of `fields`; it is a value iff every field fits, and
otherwise the fault of the first field that does not. No fault is a crash. -/
structure IsJoin (w : LengthWidth) (lastBare : Bool) (fields : List FieldEncoding)
    (o : Outcome Bytes) : Prop where
  /-- The bytes are those of the reference. -/
  eq_joinFields : o = joinFields w lastBare fields
  /-- Every field fits, the last one under its own rule. -/
  exists_iff : (∃ bytes, o = .ok bytes) ↔
    ∀ before field after, fields = before ++ field :: after →
      field.Fits w (lastBare && after.isEmpty)
  /-- The first field that does not fit decides. -/
  error_iff : ∀ fault, o = .error fault ↔
    ∃ before field after, fields = before ++ field :: after ∧
      (∀ earlier ∈ before, earlier.Fits w false) ∧
      field.FailsWith w (lastBare && after.isEmpty) fault
  /-- Writing stops with a refusal or not at all. -/
  ne_crash : o ≠ crash

theorem joinFields_ne_crash {fields : List FieldEncoding}
    (h : ∀ field ∈ fields, field.own ≠ crash) : joinFields w lastBare fields ≠ crash := by
  intro hcrash
  obtain ⟨before, field, after, rfl, -, hown | ⟨bytes, -, -, -, -, hfault⟩⟩ :=
    (joinFields_eq_error_iff fields).mp hcrash
  · exact h field (by simp) hown
  · cases hfault

theorem isJoin_joinFields {fields : List FieldEncoding} (h : ∀ field ∈ fields, field.own ≠ crash) :
    IsJoin w lastBare fields (joinFields w lastBare fields) where
  eq_joinFields := rfl
  exists_iff := exists_joinFields_iff fields
  error_iff _ := joinFields_eq_error_iff fields
  ne_crash := joinFields_ne_crash h

end WireForm
