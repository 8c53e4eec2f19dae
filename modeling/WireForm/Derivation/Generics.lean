import WireForm.Derivation.Grammar.Type
import WireForm.Derivation.Rejection
import WireForm.Derivation.Token.Lexer

/-!
# Generic parameters and their conditions

An item's parameters are written twice in an implementation: as parameters, with their attributes
and bounds, and as arguments, by name alone. Defaults are written in neither place. Lifetimes come
first in both, whatever their place in the declaration.

An implementation asks for more than its item does: each field whose type involves one of the
item's type parameters must have a codec. Those conditions come behind the item's own. Such a
condition is read again where it is added, and is written as it was read there. One that cannot be
read stops everything: a type with a constant in braces gets more braces when it is written, and is
then no type any longer.

## Main definitions

* `Param`, `Bound`, `Condition`, `Generics` — parameters and conditions
* `Reader.params`, `Reader.conditions` — as they are declared
* `Generics.addBounds` — the conditions that the fields need
* `Generics.parameters`, `Generics.arguments`, `Generics.clause` — as code
-/

namespace WireForm.Derivation

/-- What a parameter stands for, without its default. -/
inductive ParamKind where
  /-- A lifetime, and what it has to outlive. -/
  | lifetime (bounds : Code)
  /-- A type, and its bounds. -/
  | type (bounds : Code)
  /-- A constant, and its type. -/
  | const (type : Code)
  deriving Repr

/-- A parameter. -/
structure Param where
  /-- The attributes in front. -/
  attributes : Code
  /-- The name. -/
  name : String
  /-- What it stands for. -/
  kind : ParamKind
  deriving Repr

namespace Param

/-- Whether the parameter is a lifetime. -/
def isLifetime (p : Param) : Bool :=
  match p.kind with
  | .lifetime _ => true
  | .type _ | .const _ => false

/-- The name, if the parameter is a type. -/
def typeName? (p : Param) : Option String :=
  match p.kind with
  | .type _ => some p.name
  | .lifetime _ | .const _ => none

/-- The parameter as it is declared. -/
def declared (p : Param) : Code :=
  match p.kind with
  | .lifetime bounds => p.attributes ++ lifetime p.name ++ bounded bounds
  | .type bounds => p.attributes ++ .ident p.name :: bounded bounds
  | .const type => p.attributes ++ .ident "const" :: .ident p.name :: colon ++ type

/-- The parameter as an argument. -/
def named (p : Param) : Code :=
  match p.kind with
  | .lifetime _ => lifetime p.name
  | .type _ | .const _ => [.ident p.name]

end Param

/-- What is asked of a type. -/
inductive Bound where
  /-- It has a codec. -/
  | codec
  /-- It has a codec of a fixed size. -/
  | fixedCodec
  deriving DecidableEq, Repr

/-- The trait a bound stands for. -/
def Bound.code : Bound → Code
  | .codec => snippet "::ser_nu::Serializable"
  | .fixedCodec => snippet "::ser_nu::StaticallySized"

/-- A bound on a type. -/
structure Condition where
  /-- The type. -/
  type : Code
  /-- What is asked of it. -/
  bound : Bound
  deriving Repr

/-- The condition as it is put together. -/
def Condition.code (c : Condition) : Code := c.type ++ colon ++ c.bound.code

/-! ### Reading declarations -/

namespace Reader

/-- A bound of a type parameter, and whether it only holds for constants. -/
def paramBound (inner : Inner) : Reader (ReadBound × Bool) := do
  let code ← get
  if code.startsMark '~' && code.skip.startsWord ["const"] then
    let _ ← mark '~'
    let _ ← word ["const"]
    return (← bound inner, true)
  else return (← bound inner, false)

/-- The bounds of a type parameter, if there are any. None is kept if one only holds for
constants. -/
def paramBounds (inner : Inner) : Reader Code :=
  optional (Code.startsMark ':') do
    let _ ← mark ':'
    let stop (code : Code) : Bool := [',', '>', '='].any fun mark => code.startsMark mark
    let bounds ← separated '+' stop (paramBound inner)
    if bounds.elements.any Prod.snd then return []
    else return bounds.code (operator ['+']) fun bound => bound.1.code

/-- A type parameter. -/
def typeParam (inner : Inner) (attrs : Code) : Reader Param := do
  let name ← name
  let bounds ← paramBounds inner
  let _ ← optional (Code.startsMark '=') do return (← mark '=') ++ (← inner.sum)
  return ⟨attrs, name, .type bounds⟩

/-- The default of a constant: a literal, or an expression in braces. -/
def constDefault (inner : Inner) : Reader Code := do
  match ← literal? with
  | some literal => return literal
  | none => group .brace inner.expression

/-- A constant. -/
def constParam (inner : Inner) (attrs : Code) : Reader Param := do
  let _ ← word ["const"]
  let name ← name
  let _ ← mark ':'
  let type ← inner.sum
  let _ ← optional (Code.startsMark '=') do return (← mark '=') ++ (← constDefault inner)
  return ⟨attrs, name, .const type⟩

/-- A parameter. -/
def param (inner : Inner) : Reader Param := do
  let attrs ← attributesCode
  let code ← get
  if code.startsLifetime then
    let param ← lifetimeParam
    return ⟨attrs, param.name, .lifetime param.bounds⟩
  else if code.startsWord ["const"] then constParam inner attrs
  else if code.startsWord ["_"] then return ⟨attrs, ← anyWord, .type []⟩
  else typeParam inner attrs

/-- The parameters of an item, if there are any. -/
def params : Reader (Separated Param) := do
  if (← get).startsMark '<' then
    let _ ← mark '<'
    let params ← separated ',' (Code.startsMark '>') (param (← inner))
    let _ ← mark '>'
    return params
  else return .empty

/-- Whether conditions, or the bounds of one, end here. -/
def endsCondition (code : Code) : Bool :=
  code.isEmpty || code.startsGroup .brace || startsColon code ||
    [',', ';', '='].any fun mark => code.startsMark mark

/-- What a lifetime has to outlive. -/
def lifetimeCondition : Reader Code := do
  let subject ← lifetimeName
  let separator ← mark ':'
  let stop (code : Code) : Bool := endsCondition code || code.startsMark ':'
  let bounds ← separated '+' stop (lifetime <$> lifetimeName)
  return lifetime subject ++ separator ++ bounds.code (operator ['+']) id

/-- The bounds of a type, behind lifetimes they hold for all of. -/
def typeCondition : Reader Code := do
  let inner ← inner
  let lifetimes ← binder
  let subject ← inner.sum
  let separator ← mark ':'
  let bounds ← separated '+' endsCondition (bound inner)
  return lifetimes ++ subject ++ separator ++ sumCode bounds

/-- A condition. -/
def condition : Reader Code := do
  let code ← get
  if code.startsLifetime && code.skip.startsMark ':' then lifetimeCondition else typeCondition

/-- The conditions of an item, if there are any. -/
def conditions : Reader (Separated Code) := do
  if (← get).startsWord ["where"] then
    let _ ← word ["where"]
    separated ',' endsCondition condition
  else return .empty

end Reader

/-- The condition as it is written when it was read again, if it can be read. -/
def Condition.reread (c : Condition) : Except Rejection Code :=
  (Reader.condition.readAll c.code).mapError .unreadable

/-- The condition as it is written. -/
def Condition.written (c : Condition) : Code := c.reread.toOption.getD c.code

/-! ### Parameters with conditions -/

/-- Parameters with conditions on them. -/
structure Generics where
  /-- The parameters, in the order of declaration. -/
  params : Separated Param
  /-- The conditions of the declaration, as they are written there. -/
  given : Separated Code
  /-- The conditions that came after them. -/
  added : List Condition
  deriving Repr

namespace Generics

/-- The names of the type parameters. -/
def typeNames (g : Generics) : List String := g.params.elements.filterMap Param.typeName?

/-- Of these conditions, those on types that involve a type parameter. -/
def needed (g : Generics) (bounded : List Condition) : List Condition :=
  bounded.filter fun c => Code.mentions g.typeNames c.type

/-- Add, of these conditions, those on types that involve a type parameter. -/
def addBounds (g : Generics) (bounded : List Condition) : Except Rejection Generics := do
  (g.needed bounded).forM fun c => discard c.reread
  return { g with added := g.added ++ g.needed bounded }

/-- The parameters in angle brackets, each written by `write`, lifetimes first. -/
def listed (g : Generics) (write : Param → Code) : Code :=
  if g.params.elements.isEmpty then []
  else operator ['<'] ++ g.params.lifetimesFirst Param.isLifetime write ++ operator ['>']

/-- The parameters, as an implementation declares them. -/
def parameters (g : Generics) : Code := g.listed Param.declared

/-- The parameters, as arguments of the item. -/
def arguments (g : Generics) : Code := g.listed Param.named

/-- The conditions with the word in front of them, if there are any. -/
def clause (g : Generics) : Code :=
  let conditions := g.given.append (g.added.map Condition.written)
  if conditions.elements.isEmpty then [] else .ident "where" :: conditions.code comma id

end Generics

end WireForm.Derivation
