import WireForm.Scalar.Basic

/-!
# A register of ships

The types of a small register of ships and of its parts, which show every way in which a type can be
encoded. Their shapes are in `WireForm.Register.Shapes`.

## Main definitions

* `Status`, `Delta`, `Wide`, `Level` — enumerations over integers of different widths
* `Point`, `Reading`, `Marker`, `Block`, `Position`, `Meters`, `Rgb`, `Pair` — of a fixed size
* `Packet`, `Cargo`, `Framed` — with a last field of any size
* `Entry`, `Coords`, `Triple`, `Log`, `Nil` — behind a header of lengths
* `Person`, `Tagged`, `Header`, `Labelled`, `Vessel`, `Empty` — with lengths where needed
* `Name`, `Fleet`, `Tags`, `Cell`, `Percent` — encoded as another type
-/

namespace WireForm.Register

/-- Unsigned integers of two bytes. -/
abbrev U16 := (IntKind.unsigned .two).Value
/-- Unsigned integers of four bytes. -/
abbrev U32 := (IntKind.unsigned .four).Value
/-- Signed integers of two bytes. -/
abbrev I16 := (IntKind.twosComplement .two).Value

/-- What a ship is doing. -/
inductive Status where
  | docked | sailing | anchored | salvage
  deriving DecidableEq, Repr

/-- A change of level. -/
inductive Delta where
  | down | same | up
  deriving DecidableEq, Repr

/-- The ends of a wide scale. -/
inductive Wide where
  | low | high
  deriving DecidableEq, Repr

/-- A level on a signed scale. -/
inductive Level where
  | floor | mid | next | ceiling
  deriving DecidableEq, Repr

/-- A point of a chart. -/
structure Point where
  x : I16
  y : I16
  visible : Bool
  deriving BEq

/-- A measurement and what the ship was doing. -/
structure Reading where
  status : Status
  value : Binary32
  deriving BEq

/-- A record with no fields, of no bytes. -/
structure Marker where
  deriving BEq

/-- A record whose fields are fixed records and vectors themselves, some of no bytes. -/
structure Block where
  id : U32
  pad : Vector UInt8 0
  points : Vector Point 2
  mark : Marker
  level : Level
  tag : Char
  deriving BEq

/-- A mixed record with no fields. -/
structure Empty where
  deriving BEq

/-- A dynamic record with no fields. -/
structure Nil where
  deriving BEq

/-- A packet on a line. -/
structure Packet where
  id : U16
  flags : UInt8
  payload : List UInt8
  deriving BEq

/-- A person. -/
structure Person where
  name : String
  age : UInt8
  email : String
  deriving BEq

/-- A count with a tag. -/
structure Tagged where
  tag : String
  count : U32
  deriving BEq

/-- A header, whose fields all have a fixed size. -/
structure Header where
  version : UInt8
  len : U32
  deriving BEq

/-- An entry of a table. -/
structure Entry where
  key : String
  value : List U16
  deriving BEq

/-- A pair of coordinates. -/
structure Coords where
  x : UInt8
  y : UInt8
  deriving BEq

/-- Three fields, two of which have no fixed size. -/
structure Triple where
  a : List UInt8
  b : U16
  c : String
  deriving BEq

/-- A name. -/
structure Name where
  text : String
  deriving BEq

/-- A distance. -/
structure Meters where
  value : U32
  deriving BEq

/-- A colour. -/
structure Rgb where
  r : UInt8
  g : UInt8
  b : UInt8
  deriving BEq

/-- A list of tags. -/
structure Tags where
  tags : List String
  deriving BEq

/-- A place for one byte. -/
inductive Cell where
  | empty
  | filled (value : UInt8)
  deriving BEq

/-- A share out of a hundred. -/
structure Percent where
  value : UInt8
  deriving BEq

/-- A value with a label. -/
structure Labelled (α : Type) where
  label : String
  value : α
  deriving BEq

/-- Two values of one type. -/
structure Pair (α : Type) where
  first : α
  second : α
  deriving BEq

/-- A body of any type, with its kind. -/
structure Framed (β : Type) where
  kind : UInt8
  body : β
  deriving BEq

/-- Where a ship is and where it is heading. -/
structure Position where
  lat : Binary64
  lon : Binary64
  heading : U16
  deriving BEq

/-- A piece of cargo. -/
structure Cargo where
  weight : U32
  hazardous : Bool
  label : String
  deriving BEq

/-- A ship's log. -/
structure Log where
  entries : List String
  author : String
  deriving BEq

/-- A ship. -/
structure Vessel where
  name : String
  status : Status
  position : Position
  crew : U16
  registry : Vector UInt8 4
  cargo : List Cargo
  readings : List Binary32
  log : Log
  notes : String
  deriving BEq

/-- All ships. -/
structure Fleet where
  vessels : List Vessel
  deriving BEq

end WireForm.Register
