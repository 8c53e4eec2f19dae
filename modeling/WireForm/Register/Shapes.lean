import WireForm.Register.Types
import WireForm.Shape

/-!
# The shapes of the register's types

Each type of `WireForm.Register.Types` has the form that its section names. The correspondences
between a record and the nested pairs of its fields are all by definition.
-/

namespace WireForm.Register

/-- Unsigned integers of two bytes. -/
def u16 : FixedShape U16 := .unsigned .two
/-- Unsigned integers of four bytes. -/
def u32 : FixedShape U32 := .unsigned .four
/-- Signed integers of two bytes. -/
def i16 : FixedShape I16 := .signed .two

/-! ### Enumerations -/

/-- One unsigned byte, with a gap. -/
def Status.enumeration : Enumeration Status where
  name := "Status"
  kind := .unsigned .one
  discriminant
    | .docked => ⟨0, by decide⟩
    | .sailing => ⟨1, by decide⟩
    | .anchored => ⟨2, by decide⟩
    | .salvage => ⟨7, by decide⟩
  variants := [.docked, .sailing, .anchored, .salvage]
  mem_variants a := by cases a <;> decide
  discriminant_injective a b := by cases a <;> cases b <;> decide

/-- Two signed bytes around zero. -/
def Delta.enumeration : Enumeration Delta where
  name := "Delta"
  kind := .twosComplement .two
  discriminant
    | .down => ⟨-1, by decide⟩
    | .same => ⟨0, by decide⟩
    | .up => ⟨1, by decide⟩
  variants := [.down, .same, .up]
  mem_variants a := by cases a <;> decide
  discriminant_injective a b := by cases a <;> cases b <;> decide

/-- Sixteen unsigned bytes, up to the greatest integer. -/
def Wide.enumeration : Enumeration Wide where
  name := "Wide"
  kind := .unsigned .sixteen
  discriminant
    | .low => ⟨1, by decide⟩
    | .high => ⟨0xffffffffffffffffffffffffffffffff, by decide⟩
  variants := [.low, .high]
  mem_variants a := by cases a <;> decide
  discriminant_injective a b := by cases a <;> cases b <;> decide

/-- Eight signed bytes, from the least integer to the greatest. -/
def Level.enumeration : Enumeration Level where
  name := "Level"
  kind := .twosComplement .eight
  discriminant
    | .floor => ⟨-0x8000000000000000, by decide⟩
    | .mid => ⟨-5, by decide⟩
    | .next => ⟨-4, by decide⟩
    | .ceiling => ⟨0x7fffffffffffffff, by decide⟩
  variants := [.floor, .mid, .next, .ceiling]
  mem_variants a := by cases a <;> decide
  discriminant_injective a b := by cases a <;> cases b <;> decide

/-! ### Fixed size -/

/-- A point and its fields. -/
def Point.iso : Iso Point (I16 × I16 × Bool × Unit) where
  forth p := (p.x, p.y, p.visible, ())
  back := fun (x, y, visible, _) => ⟨x, y, visible⟩
  back_forth _ := rfl
  forth_back _ := rfl

/-- A packed record. -/
def Point.shape : FixedShape Point := .packed (.cons i16 (.cons i16 (.cons .bool .nil))) iso

/-- A reading and its fields. -/
def Reading.iso : Iso Reading (Status × Binary32 × Unit) where
  forth r := (r.status, r.value, ())
  back := fun (status, value, _) => ⟨status, value⟩
  back_forth _ := rfl
  forth_back _ := rfl

/-- A packed record. -/
def Reading.shape : FixedShape Reading :=
  .packed (.cons (.enumeration Status.enumeration) (.cons .binary32 .nil)) iso

/-- A packed record with no fields. -/
def Marker.shape : FixedShape Marker :=
  .packed .nil ⟨fun _ => (), fun _ => ⟨⟩, fun _ => rfl, fun _ => rfl⟩

/-- A block and its fields. -/
def Block.iso :
    Iso Block (U32 × Vector UInt8 0 × Vector Point 2 × Marker × Level × Char × Unit) where
  forth b := (b.id, b.pad, b.points, b.mark, b.level, b.tag, ())
  back := fun (id, pad, points, mark, level, tag, _) => ⟨id, pad, points, mark, level, tag⟩
  back_forth _ := rfl
  forth_back _ := rfl

/-- A packed record. -/
def Block.shape : FixedShape Block :=
  .packed (.cons u32 (.cons (.vector .byte 0) (.cons (.vector Point.shape 2)
    (.cons Marker.shape (.cons (.enumeration Level.enumeration) (.cons .char .nil)))))) iso

/-- A distance stands for its value. -/
def Meters.shape : FixedShape Meters :=
  .transparent u32 ⟨Meters.value, Meters.mk, fun _ => rfl, fun _ => rfl⟩

/-- The three bytes of a colour as one number. -/
def Rgb.toBase (c : Rgb) : U32 :=
  (IntKind.unsigned .four).ofWord (c.r.toNat * 0x10000 + c.g.toNat * 0x100 + c.b.toNat)

/-- The colour in the three low bytes of a number. -/
def Rgb.ofBase (n : U32) : Rgb :=
  let n := n.val.toNat
  ⟨UInt8.ofNat (n / 0x10000), UInt8.ofNat (n / 0x100), UInt8.ofNat n⟩

/-- A colour is encoded as a number. -/
def Rgb.shape : FixedShape Rgb := .via u32 toBase fun n => .ok (ofBase n)

/-- A position and its fields. -/
def Position.iso : Iso Position (Binary64 × Binary64 × U16 × Unit) where
  forth p := (p.lat, p.lon, p.heading, ())
  back := fun (lat, lon, heading, _) => ⟨lat, lon, heading⟩
  back_forth _ := rfl
  forth_back _ := rfl

/-- A packed record. -/
def Position.shape : FixedShape Position :=
  .packed (.cons .binary64 (.cons .binary64 (.cons u16 .nil))) iso

/-- A pair and its fields. -/
def Pair.iso (α : Type) : Iso (Pair α) (α × α × Unit) where
  forth p := (p.first, p.second, ())
  back := fun (first, second, _) => ⟨first, second⟩
  back_forth _ := rfl
  forth_back _ := rfl

/-- A packed record of two values. -/
def Pair.shape {α : Type} (s : FixedShape α) : FixedShape (Pair α) :=
  .packed (.cons s (.cons s .nil)) (iso α)

/-! ### Hybrid records -/

/-- A packet: its head and its payload. -/
def Packet.iso : Iso Packet ((U16 × UInt8 × Unit) × List UInt8) where
  forth p := ((p.id, p.flags, ()), p.payload)
  back := fun ((id, flags, _), payload) => ⟨id, flags, payload⟩
  back_forth _ := rfl
  forth_back _ := rfl

/-- A hybrid record. -/
def Packet.shape : Shape Packet := .hybrid (.cons u16 (.cons .byte .nil)) (.list .byte) iso

/-- A piece of cargo: its head and its label. -/
def Cargo.iso : Iso Cargo ((U32 × Bool × Unit) × String) where
  forth c := ((c.weight, c.hazardous, ()), c.label)
  back := fun ((weight, hazardous, _), label) => ⟨weight, hazardous, label⟩
  back_forth _ := rfl
  forth_back _ := rfl

/-- A hybrid record. -/
def Cargo.shape : Shape Cargo := .hybrid (.cons u32 (.cons .bool .nil)) .text iso

/-- A frame: its kind and its body. -/
def Framed.iso (β : Type) : Iso (Framed β) ((UInt8 × Unit) × β) where
  forth f := ((f.kind, ()), f.body)
  back := fun ((kind, _), body) => ⟨kind, body⟩
  back_forth _ := rfl
  forth_back _ := rfl

/-- A hybrid record with a body of any shape. -/
def Framed.shape {β : Type} (s : Shape β) : Shape (Framed β) := .hybrid (.cons .byte .nil) s (iso β)

/-! ### Dynamic records -/

/-- A dynamic record with no fields. -/
def Nil.shape : Shape Nil :=
  .dynamic .standard .nil ⟨fun _ => (), fun _ => ⟨⟩, fun _ => rfl, fun _ => rfl⟩

/-- An entry and its fields. -/
def Entry.iso : Iso Entry (String × List U16 × Unit) where
  forth e := (e.key, e.value, ())
  back := fun (key, value, _) => ⟨key, value⟩
  back_forth _ := rfl
  forth_back _ := rfl

/-- A dynamic record with lengths of one byte. -/
def Entry.shape : Shape Entry := .dynamic .one (.cons .text (.cons (.list u16) .nil)) iso

/-- Coordinates and their fields. -/
def Coords.iso : Iso Coords (UInt8 × UInt8 × Unit) where
  forth c := (c.x, c.y, ())
  back := fun (x, y, _) => ⟨x, y⟩
  back_forth _ := rfl
  forth_back _ := rfl

/-- A dynamic record with lengths of two bytes. -/
def Coords.shape : Shape Coords :=
  .dynamic .two (.cons (.fixed .byte) (.cons (.fixed .byte) .nil)) iso

/-- A triple and its fields. -/
def Triple.iso : Iso Triple (List UInt8 × U16 × String × Unit) where
  forth t := (t.a, t.b, t.c, ())
  back := fun (a, b, c, _) => ⟨a, b, c⟩
  back_forth _ := rfl
  forth_back _ := rfl

/-- A dynamic record with lengths of the standard width. -/
def Triple.shape : Shape Triple :=
  .dynamic .standard (.cons (.list .byte) (.cons (.fixed u16) (.cons .text .nil))) iso

/-- A log and its fields. -/
def Log.iso : Iso Log (List String × String × Unit) where
  forth l := (l.entries, l.author, ())
  back := fun (entries, author, _) => ⟨entries, author⟩
  back_forth _ := rfl
  forth_back _ := rfl

/-- A dynamic record with lengths of two bytes, which holds a sequence with such lengths. -/
def Log.shape : Shape Log := .dynamic .two (.cons (.sequence .two .text) (.cons .text .nil)) iso

/-! ### Mixed records -/

/-- A mixed record with no fields. -/
def Empty.shape : Shape Empty :=
  .mixed .standard .nil ⟨fun _ => (), fun _ => ⟨⟩, fun _ => rfl, fun _ => rfl⟩

/-- A person and its fields. -/
def Person.iso : Iso Person (String × UInt8 × String × Unit) where
  forth p := (p.name, p.age, p.email, ())
  back := fun (name, age, email, _) => ⟨name, age, email⟩
  back_forth _ := rfl
  forth_back _ := rfl

/-- A mixed record with lengths of the standard width. -/
def Person.shape : Shape Person :=
  .mixed .standard (.cons .text (.cons (.fixed .byte) (.cons .text .nil))) iso

/-- A tagged count and its fields. -/
def Tagged.iso : Iso Tagged (String × U32 × Unit) where
  forth t := (t.tag, t.count, ())
  back := fun (tag, count, _) => ⟨tag, count⟩
  back_forth _ := rfl
  forth_back _ := rfl

/-- A mixed record with lengths of two bytes. -/
def Tagged.shape : Shape Tagged := .mixed .two (.cons .text (.cons (.fixed u32) .nil)) iso

/-- A header and its fields. -/
def Header.iso : Iso Header (UInt8 × U32 × Unit) where
  forth h := (h.version, h.len, ())
  back := fun (version, len, _) => ⟨version, len⟩
  back_forth _ := rfl
  forth_back _ := rfl

/-- A mixed record in which no length is needed. -/
def Header.shape : Shape Header :=
  .mixed .standard (.cons (.fixed .byte) (.cons (.fixed u32) .nil)) iso

/-- A labelled value and its fields. -/
def Labelled.iso (α : Type) : Iso (Labelled α) (String × α × Unit) where
  forth l := (l.label, l.value, ())
  back := fun (label, value, _) => ⟨label, value⟩
  back_forth _ := rfl
  forth_back _ := rfl

/-- A mixed record with a value of any shape. -/
def Labelled.shape {α : Type} (s : Shape α) : Shape (Labelled α) :=
  .mixed .standard (.cons .text (.cons s .nil)) (iso α)

/-- A ship and its fields. -/
def Vessel.iso : Iso Vessel (String × Status × Position × U16 × Vector UInt8 4 × List Cargo ×
    List Binary32 × Log × String × Unit) where
  forth v :=
    (v.name, v.status, v.position, v.crew, v.registry, v.cargo, v.readings, v.log, v.notes, ())
  back := fun (name, status, position, crew, registry, cargo, readings, log, notes, _) =>
    ⟨name, status, position, crew, registry, cargo, readings, log, notes⟩
  back_forth _ := rfl
  forth_back _ := rfl

/-- A mixed record that holds fixed, hybrid and dynamic ones. -/
def Vessel.shape : Shape Vessel :=
  .mixed .standard
    (.cons .text (.cons (.fixed (.enumeration Status.enumeration)) (.cons (.fixed Position.shape)
      (.cons (.fixed u16) (.cons (.fixed (.vector .byte 4)) (.cons (.sequence .standard Cargo.shape)
        (.cons (.list .binary32) (.cons Log.shape (.cons .text .nil))))))))) iso

/-! ### Other types -/

/-- A name stands for its text. -/
def Name.shape : Shape Name :=
  .transparent .text ⟨Name.text, Name.mk, fun _ => rfl, fun _ => rfl⟩

/-- A fleet stands for its ships. -/
def Fleet.shape : Shape Fleet :=
  .transparent (.sequence .standard Vessel.shape)
    ⟨Fleet.vessels, Fleet.mk, fun _ => rfl, fun _ => rfl⟩

/-- Tags are encoded as one text, with commas between them. A tag with a comma comes back as two. -/
def Tags.shape : Shape Tags :=
  .via .text (fun t => ",".intercalate t.tags) fun s => .ok ⟨s.splitOn ","⟩

/-- The number that stands for an empty cell. -/
def Cell.emptyMark : Nat := 0xffff

/-- A cell as a number. -/
def Cell.toBase : Cell → U16
  | .empty => (IntKind.unsigned .two).ofWord emptyMark
  | .filled value => (IntKind.unsigned .two).ofWord value.toNat

/-- The cell that a number stands for, of which only the low byte counts when it is not empty. -/
def Cell.ofBase (n : U16) : Cell :=
  if n.val = emptyMark then .empty else .filled (UInt8.ofNat n.val.toNat)

/-- A cell is encoded as a number. -/
def Cell.shape : Shape Cell := .via (.fixed u16) toBase fun n => .ok (ofBase n)

/-- A share is encoded as a byte, and checked when decoded. -/
def Percent.shape : Shape Percent :=
  .via (.fixed .byte) Percent.value fun n =>
    if 100 < n then refuse (.malformed s!"{n}% is over 100%") else .ok ⟨n⟩

end WireForm.Register
