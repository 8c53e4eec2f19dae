import WireForm.Proofs.ShapeLaws

/-!
# What a failed writer leaves behind

The appending contract says that a failed writer leaves the old contents in front of whatever it
added. Writers that cut the buffer back leave nothing else, and a record or a sequence that is
written field by field leaves the fields that were finished: each of them complete, with its length
in front of it, and nothing of the one that failed.

Only the last field of a mixed record is an exception. It is written bare, straight into the buffer,
so what its own codec leaves of it stays.

It does not matter how deep inside a value the failure arises. A field of a fixed size never fails,
and any other is cut back by the writer that framed it, whatever the writers nested in it have
appended, patched or cut back themselves.

## Main definitions

* `Restores` — a failure leaves the buffer as it was
* `LeavesCompleted` — a failure leaves the fields before the one that failed

## Main results

* `Writer.restores_length`, `Writer.restores_measured`, `Writer.restores_dynamic`,
  `Writer.restores_field` — the writers of single fields and of headers
* `LeavesCompleted.cons` — one field in front of others
* `failed_writes_leave_completed` — the same for all shapes
-/

namespace WireForm

variable {α β τ : Type}

/-- A failure of `x` leaves the buffer as it was. -/
def Restores (x : Step Bytes α) : Prop :=
  ∀ out fault out', x out = (.error fault, out') → out' = out

/-- A step with a known outcome also leaves some buffer. -/
theorem Step.eq_of_eval {σ : Type} {x : Step σ α} {s : σ} {o : Outcome α} (h : x.eval s = o) :
    x s = (o, (x s).2) :=
  Prod.ext h rfl

/-- What a step that keeps the contract makes of a buffer when it fails. -/
theorem Appends.of_eq_error {x : Step Bytes Unit} {o : Outcome Bytes} (h : Appends x o)
    {out out' : Bytes} {fault : Fault} (hx : x out = (.error fault, out')) :
    o = .error fault ∧ ∃ rest, out' = out ++ rest := by
  cases o with
  | ok bytes =>
    rw [h.apply_ok] at hx
    cases (Prod.mk.inj hx).1
  | error e =>
    obtain ⟨rest, hrest⟩ := h.apply_error out
    obtain ⟨hfault, hout⟩ := Prod.mk.inj (hrest.symm.trans hx)
    exact ⟨congrArg Except.error (Except.error.inj hfault), rest, hout.symm⟩

namespace Restores

theorem of_ok {x : Step Bytes α} (h : ∀ out, ∃ a out', x out = (.ok a, out')) : Restores x := by
  intro out fault out' hx
  obtain ⟨a, out'', hok⟩ := h out
  rw [hok] at hx
  cases (Prod.mk.inj hx).1

/-- A value that is computed beforehand does not touch the buffer. -/
theorem lift_bind {u : Outcome β} {f : β → Step Bytes α} (hf : ∀ b, Restores (f b)) :
    Restores (Step.lift u >>= f) := by
  cases u with
  | error e =>
    intro out fault out' hx
    exact (Prod.mk.inj hx).2.symm
  | ok b => exact hf b

/-- A step that never fails may follow one that does. -/
theorem bind_of_ok {x : Step Bytes β} {f : β → Step Bytes α} (hx : Restores x)
    (hf : ∀ b out, ∃ a out', f b out = (.ok a, out')) : Restores (x >>= f) := by
  intro out fault out' h
  rcases hrun : x out with ⟨e | b, mid⟩
  · rw [Step.bind_of_error hrun] at h
    obtain ⟨-, rfl⟩ := Prod.mk.inj h
    exact hx out e mid hrun
  · obtain ⟨a, out'', hok⟩ := hf b mid
    rw [Step.bind_of_ok hrun, hok] at h
    cases (Prod.mk.inj h).1

end Restores

/-- Cutting back to the old length gives the old contents, since they are still in front. -/
theorem Appends.restores_rollingBack {x : Step Bytes Unit} {o : Outcome Bytes} (h : Appends x o) :
    Restores (Writer.rollingBack x) := by
  intro out fault out' hx
  rw [Writer.rollingBack] at hx
  split at hx
  · cases (Prod.mk.inj hx).1
  · rename_i e mid hrun
    obtain ⟨-, rest, rfl⟩ := h.of_eq_error hrun
    rw [← (Prod.mk.inj hx).2, List.take_left]

/-! ### The writers -/

namespace Writer

variable {w : LengthWidth} {c : Codec α} {a : α}

/-- A length that does not fit is refused before anything is written. -/
theorem restores_length (w : LengthWidth) (len : Nat) : Restores (length w len) :=
  Restores.lift_bind fun n =>
    Restores.of_ok fun out => ⟨(), _, w.kind.codec_lawful.appendFixed_eq n out⟩

theorem restores_measured {o : Outcome Bytes} (h : Appends (c.append a) o) :
    Restores (measured w c a) :=
  (appends_fillMeasured h).restores_rollingBack

theorem restores_dynamic (w : LengthWidth) (fields : List Bytes) : Restores (dynamic w fields) :=
  (appends_lengths w fields.dropLast).restores_rollingBack.bind_of_ok fun _ out =>
    ⟨(), out ++ fields.flatten, rfl⟩

/-- A field that is not the last is framed, or has a fixed size and does not fail. -/
theorem restores_field (h : c.Lawful) (w : LengthWidth) (a : α) :
    Restores (field w c a false) := by
  rw [field]
  split
  · rename_i hsized
    obtain ⟨size, hsize⟩ := Option.isSome_iff_exists.mp
      (show c.size?.isSome from hsized.resolve_right Bool.false_ne_true)
    obtain ⟨bytes, hbytes, -⟩ := h.sized size hsize a
    exact Restores.of_ok fun out => ⟨(), out ++ bytes, (h.appends a).ok bytes hbytes out⟩
  · exact restores_measured (h.appends a)

end Writer

/-- All fields of a dynamic record are encoded before anything is appended. -/
theorem DynamicForm.restores_append (f : DynamicForm α) (w : LengthWidth) (a : α) :
    Restores (f.append w a) :=
  Restores.lift_bind fun fields => Writer.restores_dynamic w fields

/-! ### Field by field -/

/-- When `x` fails it leaves, behind the old contents, the fields in front of the one that failed:
each as it is written, and none of them is the last. Of the one that failed there is nothing, unless
it is the last and bare. -/
def LeavesCompleted (w : LengthWidth) (lastBare : Bool) (fields : List FieldEncoding)
    (x : Step Bytes Unit) : Prop :=
  ∀ out fault out', x out = (.error fault, out') → ∃ before field after bytes rest,
    fields = before ++ field :: after ∧ joinFields w false before = .ok bytes ∧
    field.FailsWith w (lastBare && after.isEmpty) fault ∧ out' = out ++ bytes ++ rest ∧
    ((lastBare && after.isEmpty) = false → rest = [])

namespace LeavesCompleted

variable {w : LengthWidth} {lastBare : Bool}

theorem pure : LeavesCompleted w lastBare [] (Pure.pure ()) := by
  intro out fault out' h
  cases (Prod.mk.inj h).1

/-- **One field in front of others.** When the field is written and one of the others fails, the
field is not the last and has been completed. -/
theorem cons {field : FieldEncoding} {fields : List FieldEncoding} {x y : Step Bytes Unit}
    (hx : Appends x (field.written w (lastBare && fields.isEmpty)))
    (hrestores : (lastBare && fields.isEmpty) = false → Restores x)
    (hy : LeavesCompleted w lastBare fields y) :
    LeavesCompleted w lastBare (field :: fields) (do x; y) := by
  intro out fault out' h
  cases hwritten : field.written w (lastBare && fields.isEmpty) with
  | error e =>
    rw [hwritten] at hx
    obtain ⟨rest, hrest⟩ := hx.apply_error out
    rw [Step.bind_of_error hrest] at h
    obtain ⟨he, rfl⟩ := Prod.mk.inj h
    obtain rfl := Except.error.inj he
    refine ⟨[], field, fields, [], rest, rfl, rfl, FieldEncoding.written_eq_error_iff.mp hwritten,
      by rw [List.append_nil], fun hbare => ?_⟩
    exact List.append_right_eq_self.mp (hrestores hbare out e _ hrest)
  | ok front =>
    rw [hwritten] at hx
    rw [Step.bind_of_ok (hx.apply_ok out)] at h
    obtain ⟨before, failed, after, bytes, rest, rfl, hbytes, hfails, rfl, hrest⟩ :=
      hy _ fault out' h
    rw [show (before ++ failed :: after).isEmpty = false by simp, Bool.and_false] at hwritten
    refine ⟨field :: before, failed, after, front ++ bytes, rest, rfl, ?_, hfails,
      by simp only [List.append_assoc], hrest⟩
    rw [joinFields, Bool.false_and, hwritten, hbytes]
    rfl

end LeavesCompleted

theorem Tuple.writeMixed_leavesCompleted {w : LengthWidth} {fields : Codecs τ} (h : fields.Lawful)
    (as : τ) : LeavesCompleted w true (fields.fieldEncodings as) (writeMixed w fields as) := by
  induction fields with
  | nil =>
    rw [writeMixed]
    exact LeavesCompleted.pure
  | cons head tail ih =>
    obtain ⟨a, as⟩ := as
    rw [writeMixed_cons, ← Codecs.isEmpty_fieldEncodings tail as]
    refine LeavesCompleted.cons (Writer.appends_written h.1 a _) (fun hlast => ?_) (ih h.2 as)
    rw [show (tail.fieldEncodings as).isEmpty = false from hlast]
    exact Writer.restores_field h.1 w a

theorem appendSequence_leavesCompleted {w : LengthWidth} {c : Codec α} (h : c.Lawful)
    (as : List α) :
    LeavesCompleted w false (as.map c.fieldEncoding) (appendSequence w c as) := by
  induction as with
  | nil => exact LeavesCompleted.pure
  | cons a as ih =>
    exact LeavesCompleted.cons (Writer.appends_written h a false)
      (fun _ => Writer.restores_field h w a) ih

/-! ### All shapes -/

/-- **A failed write leaves exactly the completed parts.** A length, a measured field, a field that
is not the last and a dynamic record leave nothing when they fail; a mixed record, be it a tuple or
declared, leaves the fields in front of the one that failed, and a sequence the values in front. -/
theorem failed_writes_leave_completed :
    (∀ (w : LengthWidth) (len : Nat), Restores (Writer.length w len)) ∧
    (∀ (w : LengthWidth) (fields : List Bytes), Restores (Writer.dynamic w fields)) ∧
    (∀ {α : Type} (s : Shape α) (w : LengthWidth) (a : α),
      Restores (Writer.measured w s.codec a) ∧ Restores (Writer.field w s.codec a false)) ∧
    (∀ {τ : Type} (fields : Shapes τ) (w : LengthWidth),
      (∀ as, Restores ((Tuple.dynamic fields.codecs).append w as)) ∧
      ∀ {α : Type} (iso : Iso α τ) (a : α),
        Restores (((Tuple.dynamic fields.codecs).imap iso).append w a) ∧
        Restores ((Shape.dynamic w fields iso).codec.append a)) ∧
    (∀ {τ : Type} (fields : Shapes τ) (w : LengthWidth),
      (∀ as, LeavesCompleted w true (fields.codecs.fieldEncodings as)
        ((Tuple.mixed fields.codecs).write w as)) ∧
      ∀ {α : Type} (iso : Iso α τ) (a : α),
        LeavesCompleted w true (fields.codecs.fieldEncodings (iso.forth a))
          (((Record.mixed fields.codecs).imap iso).write w a) ∧
        LeavesCompleted w true (fields.codecs.fieldEncodings (iso.forth a))
          ((Shape.mixed w fields iso).codec.append a)) ∧
    (∀ {α : Type} (elem : Shape α) (w : LengthWidth) (as : List α),
      LeavesCompleted w false (as.map elem.codec.fieldEncoding)
        (appendSequence w elem.codec as) ∧
      LeavesCompleted w false (as.map elem.codec.fieldEncoding)
        ((Shape.sequence w elem).codec.append as)) := by
  refine ⟨Writer.restores_length, Writer.restores_dynamic, fun s w a => ?_, fun fields w => ?_,
    fun fields w => ?_, fun elem w as => ?_⟩
  · exact ⟨Writer.restores_measured (s.lawful.appends a), Writer.restores_field s.lawful w a⟩
  · have hdynamic := fun {β : Type} (f : DynamicForm β) => f.restores_append w
    exact ⟨hdynamic _, fun iso a => ⟨hdynamic _ a, hdynamic _ a⟩⟩
  · have hmixed := fun as => Tuple.writeMixed_leavesCompleted (w := w) fields.lawful as
    have hrecord : (Record.mixed fields.codecs).write w = Tuple.writeMixed w fields.codecs := by
      rw [Record.mixed_eq_tuple]
      rfl
    refine ⟨hmixed, fun iso a => ?_⟩
    have hdeclared : LeavesCompleted w true (fields.codecs.fieldEncodings (iso.forth a))
        ((Record.mixed fields.codecs).write w (iso.forth a)) := by
      rw [hrecord]
      exact hmixed (iso.forth a)
    exact ⟨hdeclared, hdeclared⟩
  · have hsequence := appendSequence_leavesCompleted (w := w) elem.lawful as
    exact ⟨hsequence, hsequence⟩

/-- The second byte list of an inner sequence is too long for a length of one byte, which comes to
light after the first was written and patched. Framed, the inner sequence leaves the old byte; as a
value of an outer sequence it leaves the values in front of it. -/
theorem failed_writes_leave_completed_at_nested :
    Writer.measured .one (Shape.sequence .one (.list .byte)).codec
      [[1, 2], List.replicate 256 0] [9] = (.error (.refused (.lengthTooLarge 256 255)), [9]) ∧
    ∃ before after bytes,
      [[[7]], [[1, 2], List.replicate 256 0]].map
        (Shape.sequence .one (.list .byte)).codec.fieldEncoding = before ++ after ∧
      joinFields .one false before = .ok bytes ∧
      appendSequence .one (Shape.sequence .one (.list .byte)).codec
        [[[7]], [[1, 2], List.replicate 256 0]] [9] =
          (.error (.refused (.lengthTooLarge 256 255)), [9] ++ bytes) := by
  obtain ⟨-, -, hfield, -, -, hsequence⟩ := failed_writes_leave_completed
  constructor
  · have hfails : (Writer.measured .one (Shape.sequence .one (.list .byte)).codec
        [[1, 2], List.replicate 256 0]).eval [9] = .error (.refused (.lengthTooLarge 256 255)) := by
      decide +kernel
    have hrun := Step.eq_of_eval hfails
    rw [(hfield _ _ _).1 _ _ _ hrun] at hrun
    exact hrun
  · have hfails : (appendSequence .one (Shape.sequence .one (.list .byte)).codec
        [[[7]], [[1, 2], List.replicate 256 0]]).eval [9] =
          .error (.refused (.lengthTooLarge 256 255)) := by
      decide +kernel
    have hrun := Step.eq_of_eval hfails
    obtain ⟨before, field, after, bytes, rest, hsplit, hbytes, -, hout, hrest⟩ :=
      (hsequence _ _ _).1 _ _ _ hrun
    rw [hrest rfl, List.append_nil] at hout
    rw [hout] at hrun
    exact ⟨before, field :: after, bytes, hsplit, hbytes, hrun⟩

end WireForm
