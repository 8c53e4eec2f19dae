import WireForm.Proofs.Delimiting

/-!
# Scripts of writing and reading

The writers and readers of single fields can be combined in orders that no record uses: a field of a
fixed size behind its length, a length on its own, widths that change from one field to the next.
A `Script` is such a combination, said once for both sides: `Script.write` takes a value for each of
its steps and appends them, `Script.read` reads them back. Its steps leave something that delimits
itself, so any number of them can follow each other in any order. What has no end of its own, a
field that takes all bytes left or fields behind a header, comes last and at most once.

The invariant of the induction is that the reader stands where the writer stood when it began with
the same step: what is left of the window is what the rest of the script has appended.

The steps carry the laws of their codecs, so every script is one that can be run.

## Main definitions

* `FieldStep`, `FieldStep.write`, `FieldStep.read` — a step that others can follow
* `Ending`, `Ending.write`, `Ending.read` — the end of a script
* `Script`, `Script.write`, `Script.read` — steps and an ending
* `Finishes` — a reader takes all that is left

## Main results

* `FieldStep.appends`, `FieldStep.delimits` — what one step appends is read by the same step
* `Ending.appends`, `Ending.finishes` — the same of an ending
* `Script.appends`, `Script.finishes` — the same of a script
* `scripts_are_read_back` — what a script appends to any buffer, it reads
-/

namespace WireForm

variable {α β τ : Type}

/-! ### Steps -/

/-- A step of writing or reading one value, in front of others. -/
inductive FieldStep : Type → Type 1 where
  /-- A value of a fixed size. -/
  | fixed {α : Type} (c : FixedCodec α) (lawful : c.Lawful) : FieldStep α
  /-- A value behind its length, whether it needs it or not. -/
  | measured {α : Type} (w : LengthWidth) (c : Codec α) (lawful : c.Lawful) : FieldStep α
  /-- A length. -/
  | length (w : LengthWidth) : FieldStep Nat
  /-- A field of a mixed record that is not the last. -/
  | field {α : Type} (w : LengthWidth) (c : Codec α) (lawful : c.Lawful) : FieldStep α

namespace FieldStep

/-- Append the value. -/
def write {α : Type} : FieldStep α → α → Step Bytes Unit
  | .fixed c _, a => c.appendFixed a
  | .measured w c _, a => Writer.measured w c a
  | .length w, len => Writer.length w len
  | .field w c _, a => Writer.field w c a false

/-- Read the value. -/
def read {α : Type} : FieldStep α → Step View α
  | .fixed c _ => Reader.fixed c
  | .measured w c _ => Reader.measured w c
  | .length w => Reader.length w
  | .field w c _ => Reader.field w c false

/-- The codec of the step gives the value back. A length is no codec's. -/
def Recovers {α : Type} : FieldStep α → α → Prop
  | .fixed c _, a => c.Recovers a
  | .measured _ c _, a => c.Recovers a
  | .length _, _ => True
  | .field _ c _, a => c.Recovers a

/-- What the step appends. -/
def bytes {α : Type} : FieldStep α → α → Outcome Bytes
  | .fixed c _, a => .ok (c.image a)
  | .measured w c _, a => c.encode a >>= w.frame
  | .length w, len => w.lengthBytes len
  | .field w c _, a => (c.fieldEncoding a).written w false

theorem appends (s : FieldStep α) (a : α) : Appends (s.write a) (s.bytes a) := by
  cases s with
  | fixed c hc => exact appends_ok (hc.appendFixed_eq a)
  | measured w c hc => exact Writer.appends_measured (hc.appends a)
  | length w => exact Writer.appends_length w a
  | field w c hc => exact Writer.appends_written hc a false

/-- **What a step appends, the same step finds the end of.** -/
theorem delimits {s : FieldStep α} {a : α} (h : s.Recovers a) {front : Bytes}
    (hfront : s.bytes a = .ok front) (hlen : front.length < wordLimit) :
    Delimits s.read front a := by
  cases s with
  | fixed c hc =>
    obtain rfl : c.image a = front := Except.ok.inj hfront
    have hsize : (c.image a).length = c.size := hc.length_image a
    have hdecode : c.decode (c.image a) = .ok a := h _ (hc.encode_eq a) hlen
    show Delimits (Reader.sized c.toCodec c.size) (c.image a) a
    rw [← hsize]
    exact Reader.delimits_sized hdecode
  | measured w c hc =>
    obtain ⟨own, hown, hframe⟩ := Outcome.bind_eq_ok.mp hfront
    have hle : own.length ≤ front.length := by
      rw [(LengthWidth.frame_eq_ok.mp hframe).2, List.length_append]
      omega
    exact Reader.delimits_measured hframe (h own hown (by omega))
  | length w => exact Reader.delimits_length hfront
  | field w c hc => exact (hc.itemFrom h hfront hlen []).delimits

end FieldStep

/-! ### Endings -/

/-- The reader takes all that is left, which it reads as `a`. -/
def Finishes (x : Step View α) (bytes : Bytes) (a : α) : Prop :=
  ∀ v : View, v.Fits → v.bytes = bytes → ∃ v', x v = (.ok a, v') ∧ v'.bytes = []

theorem Reads.finishes {x : Step View α} {R : Bytes → Bytes → α → Prop} (h : Reads x R)
    {bytes : Bytes} {a : α} (hR : R bytes [] a) : Finishes x bytes a := by
  intro v hv hbytes
  obtain ⟨v', hsplit, hrest⟩ :=
    View.Splits.exists_of_bytes_eq (hbytes.trans (List.append_nil bytes).symm)
  exact ⟨v', h.complete v a v' bytes hv hsplit (hrest.symm ▸ hR), hrest⟩

/-- Behind what finds its own end, the rest is taken by what takes all. -/
theorem Delimits.finishes_pair {x : Step View α} {y : Step View β} {first second : Bytes} {a : α}
    {b : β} (hx : Delimits x first a) (hy : Finishes y second b) :
    Finishes (do let a ← x; let b ← y; return (a, b)) (first ++ second) (a, b) := by
  intro v hv hbytes
  obtain ⟨v', hsplit, hrest⟩ := View.Splits.exists_of_bytes_eq hbytes
  obtain ⟨v'', hread, hend⟩ := hy v' (hsplit.fits hv) hrest
  refine ⟨v'', ?_, hend⟩
  rw [Step.bind_of_ok (hx.whole v v' hv hsplit), Step.bind_of_ok hread]
  rfl

/-- What a script can end with. -/
inductive Ending : Type → Type 1 where
  /-- Nothing. -/
  | none : Ending Unit
  /-- A value that takes all bytes left. -/
  | rest {α : Type} (c : Codec α) (lawful : c.Lawful) : Ending α
  /-- The last field of a mixed record. -/
  | last {α : Type} (w : LengthWidth) (c : Codec α) (lawful : c.Lawful) : Ending α
  /-- Fields behind a header of their lengths. -/
  | dynamic {τ : Type} (w : LengthWidth) (fields : Codecs τ) : Ending τ

namespace Ending

/-- Append the value. -/
def write {α : Type} : Ending α → α → Step Bytes Unit
  | .none, _ => pure ()
  | .rest c _, a => c.append a
  | .last w c _, a => Writer.field w c a true
  | .dynamic w fields, as => do
    let encodings ← Step.lift (Tuple.encodeFields fields as)
    Writer.dynamic w encodings

/-- Read the value. -/
def read {α : Type} : Ending α → Step View α
  | .none => pure ()
  | .rest c _ => Reader.rest c
  | .last w c _ => Reader.field w c true
  | .dynamic w fields => do
    let lens ← Reader.dynamicHeader w fields.count
    Tuple.readSized lens 0 fields

/-- The codecs of the ending give the value back. -/
def Recovers {α : Type} : Ending α → α → Prop
  | .none, _ => True
  | .rest c _, a => c.Recovers a
  | .last _ c _, a => c.Recovers a
  | .dynamic _ fields, as => fields.Recover as

/-- What the ending appends. -/
def bytes {α : Type} : Ending α → α → Outcome Bytes
  | .none, _ => .ok []
  | .rest c _, a => c.encode a
  | .last w c _, a => (c.fieldEncoding a).written w true
  | .dynamic w fields, as => Tuple.encodeFields fields as >>= dynamicBytes w

theorem appends (e : Ending α) (a : α) : Appends (e.write a) (e.bytes a) := by
  cases e with
  | none => exact Appends.pure
  | rest c hc => exact hc.appends a
  | last w c hc => exact Writer.appends_written hc a true
  | dynamic w fields => exact appends_dynamicForm (Tuple.dynamic fields) w a

/-- **What an ending appends, the same ending reads**, where nothing comes behind it. -/
theorem finishes {e : Ending α} {a : α} (h : e.Recovers a) {bytes : Bytes}
    (hbytes : e.bytes a = .ok bytes) (hlen : bytes.length < wordLimit) :
    Finishes e.read bytes a := by
  cases e with
  | none =>
    intro v _ hv
    exact ⟨v, rfl, hv.trans (Except.ok.inj hbytes).symm⟩
  | rest c hc => exact (Reader.reads_rest c).finishes ⟨rfl, h bytes hbytes hlen⟩
  | last w c hc =>
    obtain ⟨own, hown, hstands⟩ := hc.standsAs hbytes fun _ => rfl
    have hle : own.length ≤ bytes.length := hstands.length_le
    exact (Reader.reads_field w c true).finishes ⟨own, hstands, h own hown (by omega)⟩
  | dynamic w fields =>
    obtain ⟨owns, howns, hrecord⟩ := Outcome.bind_eq_ok.mp hbytes
    have hle : owns.flatten.length ≤ bytes.length := by
      obtain ⟨header, -, hheader⟩ := Outcome.bind_eq_ok.mp hrecord
      rw [← Except.ok.inj hheader, List.length_append]
      omega
    have hdecodes : fields.Decodes owns a := Codecs.decodes_of_encodeFields h howns (by omega)
    exact (Tuple.reads_dynamic w fields).finishes
      ((Tuple.dynamicFrom_iff w fields bytes a).mpr ⟨owns, hdecodes, hrecord⟩)

end Ending

/-! ### Scripts -/

/-- Steps, and an ending. -/
inductive Script : Type → Type 1 where
  /-- No steps are left. -/
  | ending {α : Type} (e : Ending α) : Script α
  /-- A step in front of others. -/
  | step {α τ : Type} (s : FieldStep α) (others : Script τ) : Script (α × τ)

namespace Script

/-- Append a value for each step. -/
def write {τ : Type} : Script τ → τ → Step Bytes Unit
  | .ending e, a => e.write a
  | .step s others, (a, as) => do
    s.write a
    others.write as

/-- Read a value for each step. -/
def read {τ : Type} : Script τ → Step View τ
  | .ending e => e.read
  | .step s others => do
    let a ← s.read
    let as ← others.read
    return (a, as)

/-- All codecs give their values back. -/
def Recovers {τ : Type} : Script τ → τ → Prop
  | .ending e, a => e.Recovers a
  | .step s others, (a, as) => s.Recovers a ∧ others.Recovers as

/-- What the script appends. -/
def bytes {τ : Type} : Script τ → τ → Outcome Bytes
  | .ending e, a => e.bytes a
  | .step s others, (a, as) => do
    let front ← s.bytes a
    let back ← others.bytes as
    return front ++ back

theorem appends (script : Script τ) (as : τ) : Appends (script.write as) (script.bytes as) := by
  induction script with
  | ending e => exact e.appends as
  | step s others ih =>
    obtain ⟨a, as⟩ := as
    exact (s.appends a).bind (ih as)

/-- **What a script appends, the same script reads.** Every step finds its end, and what is behind
it is what the others have appended. -/
theorem finishes {script : Script τ} {as : τ} (h : script.Recovers as) {bytes : Bytes}
    (hbytes : script.bytes as = .ok bytes) (hlen : bytes.length < wordLimit) :
    Finishes script.read bytes as := by
  induction script generalizing bytes with
  | ending e => exact e.finishes h hbytes hlen
  | step s others ih =>
    obtain ⟨a, as⟩ := as
    obtain ⟨front, hfront, hbytes⟩ := Outcome.bind_eq_ok.mp hbytes
    obtain ⟨back, hback, hbytes⟩ := Outcome.bind_eq_ok.mp hbytes
    obtain rfl : front ++ back = bytes := Except.ok.inj hbytes
    rw [List.length_append] at hlen
    have hdelimits : Delimits s.read front a := s.delimits h.1 hfront (by omega)
    exact hdelimits.finishes_pair (ih h.2 hback (by omega))

end Script

/-- **Whatever a script appends to a buffer, it reads back**, with nothing left over: for steps of
any kinds in any order, with codecs and widths of lengths of their own, and any ending. -/
theorem scripts_are_read_back (script : Script τ) (as : τ) (h : script.Recovers as)
    (out out' : Bytes) (hwrite : script.write as out = (.ok (), out')) :
    ∃ bytes, out' = out ++ bytes ∧ (bytes.length < wordLimit →
      ∃ v, script.read (View.ofBytes bytes) = (.ok as, v) ∧ Reader.finish v = .ok ()) := by
  have happends := script.appends as
  cases hbytes : script.bytes as with
  | error fault =>
    rw [hbytes] at happends
    obtain ⟨rest, hrest⟩ := happends.apply_error out
    cases (Prod.mk.inj (hwrite.symm.trans hrest)).1
  | ok bytes =>
    rw [hbytes] at happends
    have hout : out' = out ++ bytes := (Prod.mk.inj (hwrite.symm.trans (happends.apply_ok out))).2
    refine ⟨bytes, hout, fun hlen => ?_⟩
    obtain ⟨v, hread, hv⟩ := Script.finishes h hbytes hlen _ (View.fits_ofBytes hlen) rfl
    exact ⟨v, hread, if_pos (View.isEmpty_iff.mpr hv)⟩

/-- A value of no bytes, a byte behind its length, a length, a text, and two fields behind a header,
with lengths of three widths, are appended to a byte that is there, and read. -/
theorem scripts_are_read_back_at_three_widths :
    let fields := (Shapes.cons .text (.cons (.fixed Register.u16) .nil)).codecs
    let script : Script (Register.Marker × UInt8 × Nat × String × String × Register.U16 × Unit) :=
      .step (.fixed Register.Marker.shape.codec Register.Marker.shape.lawful)
        (.step (.measured .two byteCodec.toCodec byteCodec_lawful.toCodec)
          (.step (.length .eight) (.step (.field .one textCodec textCodec_lawful)
            (.ending (.dynamic .one fields)))))
    let values := (Register.Marker.mk, 7, 300, "ab", "c", ⟨5, by decide⟩, ())
    let bytes : Bytes := [0, 1, 7, 0, 0, 0, 0, 0, 0, 1, 44, 2, 97, 98, 1, 99, 0, 5]
    script.write values [255] = (.ok (), [255] ++ bytes) ∧
      ∃ v, script.read (View.ofBytes bytes) = (.ok values, v) ∧ Reader.finish v = .ok () := by
  intro fields script values bytes
  have hwrite : script.write values [255] = (.ok (), [255] ++ bytes) := by decide +kernel
  have hfields : fields.Recover ("c", ⟨5, by decide⟩, ()) :=
    Shapes.recover _ _ ⟨trivial, trivial, trivial⟩
  have hmarker : Register.Marker.shape.codec.Recovers Register.Marker.mk :=
    FixedShape.recovers _ _ trivial
  have hbyte : byteCodec.Recovers 7 := FixedShape.recovers .byte 7 trivial
  have hrecovers : script.Recovers values :=
    ⟨hmarker, hbyte, trivial, textCodec_recovers "ab", hfields⟩
  obtain ⟨more, hmore, hread⟩ :=
    scripts_are_read_back script values hrecovers [255] ([255] ++ bytes) hwrite
  obtain rfl : bytes = more := List.append_cancel_left hmore
  exact ⟨hwrite, hread (by decide)⟩

end WireForm
