import WireForm.Derivation.Generics

/-!
# Items

What is known of an item for which code is made: its name, attributes and parameters, and its fields
or variants. Of a variant only its name matters, and whether it is nothing else.

## Main definitions

* `Member`, `Field` — fields and how they are reached
* `Variant`, `Body`, `Item` — variants and items
-/

namespace WireForm.Derivation

/-- How a field is reached. -/
inductive Member where
  /-- By name. -/
  | named (name : String)
  /-- By its place among the fields. -/
  | index (place : Nat)
  deriving DecidableEq, Repr

/-- The member as it is written. -/
def Member.token : Member → Token
  | .named name => .ident name
  | .index place => .literal (toString place)

/-- A field. -/
structure Field where
  /-- How it is reached. -/
  member : Member
  /-- Its type. -/
  type : Code
  deriving Repr

/-- A variant. -/
structure Variant where
  /-- Its name. -/
  name : String
  /-- Whether it is a name only, without even an empty list of fields. -/
  isUnit : Bool
  deriving DecidableEq, Repr

/-- What an item consists of. -/
inductive Body where
  | record (fields : List Field)
  | enumeration (variants : List Variant)
  | union
  deriving Repr

/-- An item. -/
structure Item where
  /-- Its name. -/
  name : String
  /-- Its attributes. -/
  attributes : List Attribute
  /-- Its parameters and the conditions on them. -/
  generics : Generics
  /-- What it consists of. -/
  body : Body
  deriving Repr

end WireForm.Derivation
