import WireForm.Scalar.Integer
import WireForm.Derivation.Grammar.Type
import WireForm.Derivation.Rejection
import WireForm.Derivation.Token.Lexer

/-!
# Options of an item

An item chooses its encoding with attributes. Their arguments are names with commas between them,
some with a type in round brackets; all attributes of the item together make one list of arguments.
An attribute that cannot be read that way is malformed, and the arguments in front of it are looked
at first. At most one argument names an encoding. Next to it, or alone, `fixed` asks for an encoding
of a fixed size.

The integer that stands for the variants of an enumeration is chosen by another attribute, one that
is shared with the compiler; what cannot be read there is left alone.

## Main definitions

* `Argument`, `argumentsOf` — the arguments of an attribute
* `Encoding`, `Options`, `Options.ofAttributes` — what an item asks for
* `integerOf?` — the integer of an enumeration
-/

namespace WireForm.Derivation

/-! ### Arguments -/

/-- An argument: a name, and a type if there is one in brackets behind it. -/
structure Argument where
  /-- The name. -/
  name : String
  /-- The type. -/
  type : Option Code
  deriving Repr

namespace Reader

/-- An argument. -/
def argument : Reader Argument := do
  let name ← name
  if (← get).startsGroup .paren then return ⟨name, some (← group .paren type)⟩
  else return ⟨name, none⟩

end Reader

/-- What `element` reads, with commas between, from one group in brackets of any kind with nothing
behind it. -/
def listed {α : Type} (element : Reader α) (content : Code) : Except Misread (List α) :=
  match content with
  | [.group _ inside] => Separated.elements <$> (Reader.commas element).readAll inside
  | _ => .error .unexpected

/-- The arguments of an attribute. -/
def argumentsOf (content : Code) : Except Rejection (List Argument) :=
  (listed Reader.argument content).mapError fun misread =>
    if misread.isFatal then .unreadable misread else .malformed

/-! ### Options -/

/-- How a type is encoded. -/
inductive Encoding where
  /-- Fields of fixed sizes one after the other. -/
  | packed
  /-- Fields of fixed sizes, then one of any size. -/
  | hybrid
  /-- Fields with lengths of this type in front of them where needed. -/
  | mixed (size : Code)
  /-- A header with the lengths of all fields, of this type. -/
  | dynamic (size : Code)
  /-- The encoding of the only field. -/
  | single
  /-- The encoding of another type, to and from which values are converted. -/
  | via (base : Code)
  deriving Repr

/-- What an item asks for. -/
structure Options where
  /-- The encoding, if one was chosen. -/
  encoding : Option Encoding
  /-- Whether a fixed size was asked for. -/
  isFixed : Bool
  deriving Repr

/-- The type of lengths when none is given. -/
def defaultSize : Code := snippet "::ser_nu::DefaultSize"

/-- What one argument asks for. -/
inductive Request where
  /-- A fixed size. -/
  | fixed
  /-- An encoding. -/
  | encoding (encoding : Encoding)
  deriving Repr

/-- What an argument asks for. -/
def Argument.request (argument : Argument) : Except Rejection Request :=
  match argument.name, argument.type with
  | "fixed", none => .ok .fixed
  | "hybrid", none => .ok (.encoding .hybrid)
  | "mixed", size => .ok (.encoding (.mixed (size.getD defaultSize)))
  | "dynamic", size => .ok (.encoding (.dynamic (size.getD defaultSize)))
  | "transparent", none => .ok (.encoding .single)
  | "via", some base => .ok (.encoding (.via base))
  | "via", none => .error .missingBase
  | name, _ => .error (.unknown name)

namespace Options

/-- Take one more argument into account. -/
def add (options : Options) (argument : Argument) : Except Rejection Options := do
  match ← argument.request with
  | .fixed => if options.isFixed then throw .fixedTwice else return { options with isFixed := true }
  | .encoding encoding =>
    if options.encoding.isSome then throw .severalEncodings
    else return { options with encoding := some encoding }

/-- Take the arguments of one more attribute into account. -/
def addAttribute (options : Options) (attr : Attribute) : Except Rejection Options := do
  (← argumentsOf attr.content).foldlM add options

/-- Check that the encoding can have a fixed size, if one is asked for. -/
def finish (options : Options) : Except Rejection Options :=
  match options.isFixed, options.encoding with
  | false, _ | true, some .single | true, some (.via _) => .ok options
  | true, none => .ok { options with encoding := some .packed }
  | true, some _ => .error .fixedWithOther

/-- What an item with these attributes asks for. -/
def ofAttributes (attributes : List Attribute) : Except Rejection Options := do
  let options ← (attributes.filter (·.isNamed "squash")).foldlM addAttribute ⟨none, false⟩
  options.finish

end Options

/-! ### Integers of enumerations -/

/-- The names in an attribute, or none if it is not a list of names. -/
def namesOf (content : Code) : List String :=
  (listed Reader.name content).toOption.getD []

/-- The first integer type that the attributes of an enumeration name. -/
def integerOf? (attributes : List Attribute) : Option IntKind :=
  (attributes.filter (·.isNamed "repr")).flatMap (fun attr => namesOf attr.content)
    |>.findSome? IntKind.ofName?

end WireForm.Derivation
