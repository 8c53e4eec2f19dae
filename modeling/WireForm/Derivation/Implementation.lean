import WireForm.Scalar.Integer
import WireForm.Derivation.Item

/-!
# Implementations

An implementation for an item is one of three kinds. The implementation of a form lists the calls
that write the fields and the calls that read them; these are two lists, and that they visit the
same fields is a property of how they are made. The implementation of a codec says what it hands the
work to, and what size its encodings have. The implementation of a codec of a fixed size names that
size and says how a value is stored.

## Main definitions

* `Write`, `Read` — calls that write and read fields
* `EncodedSize`, `FixedSize` — expressions for sizes
* `Coding`, `Storing` — what the work is handed to
* `Content`, `Implementation` — implementations
-/

namespace WireForm.Derivation

/-- A call that writes a field. -/
inductive Write where
  /-- Store a field of a fixed size in place. -/
  | store (member : Member)
  /-- Append a field of a fixed size. -/
  | fixed (member : Member)
  /-- Append a field without its length. -/
  | rest (member : Member)
  /-- Append a field, with its length if it needs one there. -/
  | flagged (member : Member) (type : Code) (last : Bool)
  /-- Encode a field into a buffer of its own. -/
  | apart (member : Member)
  deriving Repr

/-- The field that is written. -/
def Write.member : Write → Member
  | store member | fixed member | rest member | flagged member _ _ | apart member => member

/-- A call that reads a field. -/
inductive Read where
  /-- Read a field of a fixed size. -/
  | fixed (member : Member) (type : Code)
  /-- Read a field from everything that is left. -/
  | rest (member : Member) (type : Code)
  /-- Read a field, with its length if it needs one there. -/
  | flagged (member : Member) (type : Code) (last : Bool)
  /-- Read a field with the length at this place of the header. -/
  | sized (member : Member) (type : Code) (place : Nat)
  deriving Repr

/-- The field that is read. -/
def Read.member : Read → Member
  | fixed member _ | rest member _ | flagged member _ _ | sized member _ _ => member

/-- The type a field is read with. -/
def Read.type : Read → Code
  | fixed _ type | rest _ type | flagged _ type _ | sized _ type _ => type

/-- The size of all encodings, if they have one. -/
inductive EncodedSize where
  /-- The total size of the fields in the item's own packed form. -/
  | own
  /-- The sum of the sizes of these types, if all of them have one. -/
  | sumOf (types : List Code)
  /-- There is none. -/
  | unknown
  /-- The size of this type, if it has one. -/
  | ofType (type : Code)
  /-- The size of this type of a fixed size. -/
  | fixedOf (type : Code)
  deriving Repr

/-- A fixed size. -/
inductive FixedSize where
  /-- The total size of the fields in the item's own packed form. -/
  | own
  /-- The size of this type. -/
  | ofType (type : Code)
  deriving Repr

/-- What encoding and decoding are handed to. -/
inductive Coding where
  | packed
  | hybrid
  /-- The mixed form with lengths of this type. -/
  | mixed (size : Code)
  /-- The dynamic form with lengths of this type. -/
  | dynamic (size : Code)
  /-- The codec of the only field. -/
  | single (field : Field)
  /-- The codec of another type, between conversions. -/
  | via (base : Code)
  /-- The codec of an integer, and a search for the variant it stands for. -/
  | variants (typeName : String) (integer : IntKind) (names : List String)
  deriving Repr

/-- How a value is stored in a slice of its size. -/
inductive Storing where
  | packed
  /-- As the only field is. -/
  | single (member : Member)
  /-- As a value of another type is. -/
  | via (base : Code)
  /-- As the integer that stands for the variant is. -/
  | variants (integer : IntKind) (names : List String)
  deriving Repr

/-- What an implementation consists of. -/
inductive Content where
  /-- The packed form, whose size is that of these types together. -/
  | packedForm (types : List Code) (writes : List Write) (reads : List Read)
  /-- The hybrid form, the size of whose head is that of these types together. -/
  | hybridForm (head : List Code) (writes : List Write) (reads : List Read)
  /-- The mixed form. -/
  | mixedForm (writes : List Write) (reads : List Read)
  /-- The dynamic form of this number of fields. -/
  | dynamicForm (count : Nat) (writes : List Write) (reads : List Read)
  /-- The codec. -/
  | codec (size : EncodedSize) (coding : Coding)
  /-- The codec of a fixed size. -/
  | fixedCodec (size : FixedSize) (storing : Storing)
  deriving Repr

/-- An implementation. -/
structure Implementation where
  /-- The name of the item. -/
  name : String
  /-- The parameters of the item, with all conditions. -/
  generics : Generics
  /-- What it consists of. -/
  content : Content
  deriving Repr

end WireForm.Derivation
