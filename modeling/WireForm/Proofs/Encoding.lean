import WireForm.Proofs.ShapeLaws
import WireForm.Register.Shapes

/-!
# What every shape encodes to

Two things are said here about everything that a shape can describe. Writing into a buffer that
already holds something is writing into an empty one and appending the result, for every type and
for each of the ways in which a record or a sequence can be written. And a mixed record or a
sequence is the concatenation of its fields, each encoded on its own, with lengths where they are
needed, although the writer never has a field on its own.

Records come as tuples and with a declaration. A declared record stands for the tuple of its fields
through an isomorphism, and in the mixed form it counts its fields instead of looking whether there
are more of them.

## Main definitions

* `Codec.AppendOnly`, `PackedForm.AppendOnly`, `HybridForm.AppendOnly`, `DynamicForm.AppendOnly`,
  `MixedForm.AppendOnly` — appending is encoding, wherever it starts

## Main results

* `writers_append_only` — all of these, for all shapes
* `mixed_encoding_isJoin` — mixed records and sequences against the reference
-/

namespace WireForm

variable {α β τ : Type}

/-! ### Appending -/

/-- Appending a value to any buffer appends its encoding, or fails in the same way with the old
contents still there. -/
def Codec.AppendOnly (c : Codec α) : Prop := ∀ a, Appends (c.append a) (c.encode a)

/-- The same for a packed record. -/
def PackedForm.AppendOnly (f : PackedForm α) : Prop := ∀ a, Appends (f.append a) (f.encode a)

/-- The same for a hybrid record. -/
def HybridForm.AppendOnly (f : HybridForm α) : Prop := ∀ a, Appends (f.write a) (f.encode a)

/-- The same for a dynamic record, in every width. -/
def DynamicForm.AppendOnly (f : DynamicForm α) : Prop :=
  ∀ w a, Appends (f.append w a) (f.encode w a)

/-- The same for a mixed record, in every width. -/
def MixedForm.AppendOnly (f : MixedForm α) : Prop := ∀ w a, Appends (f.write w a) (f.encode w a)

/-- A contract of any kind is a contract with what an empty buffer gets. -/
theorem Appends.appends_appended {x : Step Bytes Unit} {o : Outcome Bytes} (h : Appends x o) :
    Appends x (appended x) := by
  rw [h.appended_eq]
  exact h

theorem Tuple.packed_appendOnly {fields : FixedCodecs τ} (h : fields.Lawful) :
    (Tuple.packed fields).AppendOnly := by
  intro as
  rw [encode_packed h]
  exact appends_packed h as

theorem Tuple.hybrid_appendOnly {head : FixedCodecs τ} {last : Codec β} (hhead : head.Lawful)
    (hlast : last.Lawful) : (Tuple.hybrid head last).AppendOnly := by
  rintro ⟨as, b⟩
  exact (appends_hybrid hhead hlast as b).appends_appended

theorem DynamicForm.appendOnly (f : DynamicForm α) : f.AppendOnly := by
  intro w a
  exact (appends_dynamicForm f w a).appends_appended

theorem Tuple.mixed_appendOnly {fields : Codecs τ} (h : fields.Lawful) :
    (Tuple.mixed fields).AppendOnly := by
  intro w as
  exact (appends_writeMixed h as).appends_appended

/-- **Every writer is append-only.** Whatever shape a value has, and whether a record is written as
a tuple or with its declaration, in its own width or another: appending to a buffer appends the
encoding, and when there is none, fails with the same fault and leaves what was there in front. -/
theorem writers_append_only :
    (∀ {α : Type} (s : Shape α), s.codec.AppendOnly) ∧
    (∀ {τ : Type} (fields : FixedShapes τ), (Tuple.packed fields.codecs).AppendOnly ∧
      ∀ {α : Type} (iso : Iso α τ), ((Tuple.packed fields.codecs).imap iso).AppendOnly) ∧
    (∀ {σ β : Type} (head : FixedShapes σ) (last : Shape β),
      (Tuple.hybrid head.codecs last.codec).AppendOnly ∧
      ∀ {α : Type} (iso : Iso α (σ × β)),
        ((Tuple.hybrid head.codecs last.codec).imap iso).AppendOnly) ∧
    (∀ {τ : Type} (fields : Shapes τ), (Tuple.dynamic fields.codecs).AppendOnly ∧
      ∀ {α : Type} (iso : Iso α τ), ((Tuple.dynamic fields.codecs).imap iso).AppendOnly) ∧
    (∀ {τ : Type} (fields : Shapes τ), (Tuple.mixed fields.codecs).AppendOnly ∧
      ∀ {α : Type} (iso : Iso α τ), ((Record.mixed fields.codecs).imap iso).AppendOnly) ∧
    (∀ {α : Type} (elem : Shape α) (w : LengthWidth) (as : List α),
      Appends (appendSequence w elem.codec as) (appended (appendSequence w elem.codec as))) := by
  refine ⟨fun s => s.lawful.appends, fun fields => ?_, fun head last => ?_, fun fields => ?_,
    fun fields => ?_, fun elem w as => ?_⟩
  · have hpacked := Tuple.packed_appendOnly fields.lawful
    exact ⟨hpacked, fun iso a => hpacked (iso.forth a)⟩
  · have hhybrid := Tuple.hybrid_appendOnly head.lawful last.lawful
    exact ⟨hhybrid, fun iso a => hhybrid (iso.forth a)⟩
  · have hdynamic := (Tuple.dynamic fields.codecs).appendOnly
    exact ⟨hdynamic, fun iso w a => hdynamic w (iso.forth a)⟩
  · have hmixed := Tuple.mixed_appendOnly fields.lawful
    rw [Record.mixed_eq_tuple]
    exact ⟨hmixed, fun iso w a => hmixed w (iso.forth a)⟩
  · exact (appends_sequence elem.lawful as).appends_appended

/-- Behind two old bytes, a person is appended, and a tuple whose first field is too long for a
length of one byte fails. -/
theorem writers_append_only_at_person :
    Register.Person.shape.codec.append ⟨"ab", 3, ""⟩ [9, 9] =
      (.ok (), [9, 9, 0, 0, 0, 2, 97, 98, 3]) ∧
    ∃ rest, (Tuple.mixed (Shapes.cons (.list .byte) (.cons .text .nil)).codecs).write .one
      (List.replicate 256 0, "", ()) [9, 9] =
        (.error (.refused (.lengthTooLarge 256 255)), [9, 9] ++ rest) := by
  obtain ⟨hshapes, -, -, -, hmixed, -⟩ := writers_append_only
  refine ⟨(hshapes _ _).ok [0, 0, 0, 2, 97, 98, 3] ?_ _, ((hmixed _).1 _ _).error _ ?_ _⟩
  · decide +kernel
  · decide +kernel

/-! ### Fields side by side -/

theorem Tuple.mixed_isJoin {fields : Codecs τ} (h : fields.Lawful) (w : LengthWidth) (as : τ) :
    IsJoin w true (fields.fieldEncodings as) ((Tuple.mixed fields).encode w as) := by
  rw [encode_mixed h]
  exact isJoin_joinFields (Codecs.ne_crash_of_mem h as)

theorem sequence_isJoin {c : Codec α} (h : c.Lawful) (w : LengthWidth) (as : List α) :
    IsJoin w false (as.map c.fieldEncoding) (appended (appendSequence w c as)) := by
  rw [(appends_sequence h as).appended_eq]
  refine isJoin_joinFields fun field hfield => ?_
  obtain ⟨a, -, rfl⟩ := List.mem_map.mp hfield
  exact h.ne_crash a

/-- **The writer that patches lengths in agrees with the one that knows them.** A mixed record, be
it a tuple or declared, in any width, is the concatenation of its fields with lengths in front of
those that need one; it is refused exactly when a field is, or is too long and not the last, and
then for the first such field. In a sequence no value counts as the last. -/
theorem mixed_encoding_isJoin :
    (∀ {τ : Type} (fields : Shapes τ) (w : LengthWidth) (as : τ),
      IsJoin w true (fields.codecs.fieldEncodings as) ((Tuple.mixed fields.codecs).encode w as)) ∧
    (∀ {α τ : Type} (fields : Shapes τ) (iso : Iso α τ) (w : LengthWidth) (a : α),
      IsJoin w true (fields.codecs.fieldEncodings (iso.forth a))
        (((Record.mixed fields.codecs).imap iso).encode w a)) ∧
    (∀ {α : Type} (elem : Shape α) (w : LengthWidth) (as : List α),
      IsJoin w false (as.map elem.codec.fieldEncoding)
        (appended (appendSequence w elem.codec as))) := by
  refine ⟨fun fields w as => ?_, fun fields iso w a => ?_, fun elem w as => ?_⟩
  · exact Tuple.mixed_isJoin fields.lawful w as
  · rw [Record.mixed_eq_tuple]
    exact Tuple.mixed_isJoin fields.lawful w (iso.forth a)
  · exact sequence_isJoin elem.lawful w as

end WireForm
