import WireForm.Composite.Record
import WireForm.Derivation.Implementation
import WireForm.Derivation.Options

/-!
# From items to implementations

A record gets the implementation of its form and the codec that uses it, and a codec of a fixed size
if its form is packed. A record that is encoded as its only field or as another type, and every
enumeration, gets no form, and a codec of a fixed size where that was asked for or where integers
stand for variants.

The conditions of an implementation are those that its calls need: a codec for a field of any size,
a codec of a fixed size for the others.

## Main definitions

* `packedImplementations`, `hybridImplementations`, `mixedImplementations`,
  `dynamicImplementations`, `singleImplementations` — for records, by encoding
* `viaImplementations`, `variantImplementations` — for what is encoded as another type, and for
  enumerations with integers
* `recordImplementations`, `enumerationImplementations`, `Item.implementations` — for an item
-/

namespace WireForm.Derivation

variable (name : String) (generics : Generics)

/-- The condition on a field's type. -/
def Field.needs (bound : Bound) (field : Field) : Condition := ⟨field.type, bound⟩

/-- The size of the encodings of fields that come with nothing between them when all their sizes are
fixed. -/
def sizeOfFields (fields : List Field) : EncodedSize := .sumOf (fields.map Field.type)

/-- The implementations for the packed form. -/
def packedImplementations (fields : List Field) : Except Rejection (List Implementation) := do
  let generics ← generics.addBounds (fields.map (Field.needs .fixedCodec))
  let writes := fields.map fun field => Write.store field.member
  let reads := fields.map fun field => Read.fixed field.member field.type
  return [⟨name, generics, .packedForm (fields.map Field.type) writes reads⟩,
    ⟨name, generics, .codec .own .packed⟩,
    ⟨name, generics, .fixedCodec .own .packed⟩]

/-- The implementations for the hybrid form, of which the last field is given apart. -/
def hybridImplementations (head : List Field) (last : Field) :
    Except Rejection (List Implementation) := do
  let generics ←
    generics.addBounds (head.map (Field.needs .fixedCodec) ++ [last.needs .codec])
  let writes := (head.map fun field => Write.fixed field.member) ++ [.rest last.member]
  let reads :=
    (head.map fun field => Read.fixed field.member field.type) ++ [.rest last.member last.type]
  return [⟨name, generics, .hybridForm (head.map Field.type) writes reads⟩,
    ⟨name, generics, .codec (sizeOfFields (head ++ [last])) .hybrid⟩]

/-- The implementations for the mixed form. -/
def mixedImplementations (size : Code) (fields : List Field) :
    Except Rejection (List Implementation) := do
  let generics ← generics.addBounds (fields.map (Field.needs .codec))
  let flagged := fields.zip (lastFlags fields.length)
  let writes := flagged.map fun (field, last) => Write.flagged field.member field.type last
  let reads := flagged.map fun (field, last) => Read.flagged field.member field.type last
  return [⟨name, generics, .mixedForm writes reads⟩,
    ⟨name, generics, .codec (sizeOfFields fields) (.mixed size)⟩]

/-- The implementations for the dynamic form. Its encodings have no fixed size even if all fields
have one, because of the header. -/
def dynamicImplementations (size : Code) (fields : List Field) :
    Except Rejection (List Implementation) := do
  let generics ← generics.addBounds (fields.map (Field.needs .codec))
  let writes := fields.map fun field => Write.apart field.member
  let reads := fields.zipIdx.map fun (field, place) => Read.sized field.member field.type place
  return [⟨name, generics, .dynamicForm fields.length writes reads⟩,
    ⟨name, generics, .codec .unknown (.dynamic size)⟩]

/-- The implementations for a record that is encoded as its only field. -/
def singleImplementations (isFixed : Bool) (field : Field) :
    Except Rejection (List Implementation) := do
  let generics ← generics.addBounds [field.needs (if isFixed then .fixedCodec else .codec)]
  return ⟨name, generics, .codec (.ofType field.type) (.single field)⟩ ::
    if isFixed then [⟨name, generics, .fixedCodec (.ofType field.type) (.single field.member)⟩]
    else []

/-- The implementations for an item that is encoded as another type. -/
def viaImplementations (isFixed : Bool) (base : Code) : List Implementation :=
  ⟨name, generics, .codec (.ofType base) (.via base)⟩ ::
    if isFixed then [⟨name, generics, .fixedCodec (.ofType base) (.via base)⟩] else []

/-- The fields in front of the last one, and the last one, if there is one. -/
def splitLast? {α : Type} : List α → Option (List α × α)
  | [] => none
  | [a] => some ([], a)
  | a :: b :: rest => (splitLast? (b :: rest)).map fun (head, last) => (a :: head, last)

/-- The implementations for a record. -/
def recordImplementations (options : Options) (fields : List Field) :
    Except Rejection (List Implementation) :=
  match options.encoding.getD (.mixed defaultSize) with
  | .packed => packedImplementations name generics fields
  | .hybrid =>
    match splitLast? fields with
    | some (head, last) => hybridImplementations name generics head last
    | none => .error .noLastField
  | .mixed size => mixedImplementations name generics size fields
  | .dynamic size => dynamicImplementations name generics size fields
  | .single =>
    match fields with
    | [field] => singleImplementations name generics options.isFixed field
    | _ => .error .noSingleField
  | .via base => .ok (viaImplementations name generics options.isFixed base)

/-- The implementations for an enumeration with an integer for each variant. -/
def variantImplementations (integer : IntKind) (names : List String) : List Implementation :=
  let type : Code := [.ident integer.name]
  [⟨name, generics, .codec (.fixedOf type) (.variants name integer names)⟩,
    ⟨name, generics, .fixedCodec (.ofType type) (.variants integer names)⟩]

/-- The implementations for an enumeration. -/
def enumerationImplementations (options : Options) (attributes : List Attribute)
    (variants : List Variant) : Except Rejection (List Implementation) :=
  match options.encoding with
  | some (.via base) => .ok (viaImplementations name generics options.isFixed base)
  | some _ => .error .recordEncoding
  | none =>
    match integerOf? attributes with
    | none => .error .noInteger
    | some integer =>
      if variants.all Variant.isUnit then
        .ok (variantImplementations name generics integer (variants.map Variant.name))
      else .error .variantWithFields

/-- The implementations for an item whose options are known. -/
def Item.implementationsWith (item : Item) (options : Options) :
    Except Rejection (List Implementation) :=
  match item.body with
  | .record fields => recordImplementations item.name item.generics options fields
  | .enumeration variants =>
    enumerationImplementations item.name item.generics options item.attributes variants
  | .union => .error .union

/-- The implementations for an item. -/
def Item.implementations (item : Item) : Except Rejection (List Implementation) := do
  item.implementationsWith (← Options.ofAttributes item.attributes)

end WireForm.Derivation
