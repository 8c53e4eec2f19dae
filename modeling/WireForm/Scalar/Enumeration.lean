import WireForm.Scalar.Integer

/-!
# Enumerations

The values of an enumeration are told apart by distinct integers of one kind, and are encoded as
those. Bytes whose integer belongs to no value are refused with the enumeration's name and the
integer.

## Main definitions

* `Enumeration` — the values of a type, with their integers
* `Enumeration.codec`
-/

namespace WireForm

/-- A type whose values are told apart by integers of one kind. -/
structure Enumeration (α : Type) where
  /-- What refusals call the type. -/
  name : String
  /-- The kind of the integers. -/
  kind : IntKind
  /-- The integer of a value. -/
  discriminant : α → kind.Value
  /-- All values, in the order in which they are tried. -/
  variants : List α
  /-- No value is missing. -/
  mem_variants : ∀ a, a ∈ variants
  /-- Different values have different integers. -/
  discriminant_injective : ∀ a b, discriminant a = discriminant b → a = b

namespace Enumeration

variable {α : Type}

/-- The value with this integer, if there is one. -/
def find? (e : Enumeration α) (n : e.kind.Value) : Option α :=
  e.variants.find? fun a => e.discriminant a == n

/-- The codec of an enumeration: that of its integers. -/
def codec (e : Enumeration α) : FixedCodec α :=
  e.kind.codec.via e.discriminant fun n =>
    match e.find? n with
    | some a => .ok a
    | none => refuse (.invalidDiscriminant e.name n.val)

end Enumeration

end WireForm
