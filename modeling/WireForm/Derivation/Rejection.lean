import WireForm.Derivation.Reader

/-!
# Rejections

An item for which no code can be made is rejected with a reason. The reasons lie in its attributes,
in its fields or variants, or in code that cannot be read.

## Main definitions

* `Rejection`, `Rejection.message` — the reasons and their wordings
-/

namespace WireForm.Derivation

/-- Why no code is made for an item. -/
inductive Rejection where
  /-- An attribute is not a list of arguments. -/
  | malformed
  /-- Code cannot be read, and it makes no difference where it is. -/
  | unreadable (misread : Misread)
  /-- The fixed size is asked for twice. -/
  | fixedTwice
  /-- The type to encode as is missing. -/
  | missingBase
  /-- No option has this name and form. -/
  | unknown (name : String)
  /-- More than one encoding is chosen. -/
  | severalEncodings
  /-- The chosen encoding has no fixed size. -/
  | fixedWithOther
  /-- The item is a union. -/
  | union
  /-- There is no field to come last. -/
  | noLastField
  /-- There is not exactly one field to encode as. -/
  | noSingleField
  /-- The chosen encoding is one of records. -/
  | recordEncoding
  /-- The enumeration has no integer. -/
  | noInteger
  /-- A variant of the enumeration has fields. -/
  | variantWithFields
  deriving DecidableEq, Repr

/-- The wording of a rejection. -/
def Rejection.message : Rejection → String
  | malformed => "Malformed `#[squash]` attr"
  | unreadable misread => misread.message
  | fixedTwice => "`fixed` specified twice in `#[squash]`"
  | missingBase => "`via` needs a type e.g. `#[squash(via(u32))]`"
  | unknown name => "Unknown `#[squash]` option `" ++ name ++ "`"
  | severalEncodings => "Can only specify one encoding in `#[squash]`"
  | fixedWithOther => "`fixed` can only be combined with `transparent` or `via` in `#[squash]`"
  | union => "Deriving `Serializable` on unions not supported"
  | noLastField => "`#[squash(hybrid)]` needs at least one field"
  | noSingleField => "`#[squash(transparent)]` needs exactly one field"
  | recordEncoding => "Enums only support `#[squash(via(...))]`"
  | noInteger => "Deriving `Serializable` on an enum needs an integer repr e.g. `#[repr(u8)]`"
  | variantWithFields =>
    "Cannot derive `Serializable` on enum with fields. Use `#[squash(via(...))]` instead."

end WireForm.Derivation
