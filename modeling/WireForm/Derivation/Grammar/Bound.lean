import WireForm.Derivation.Attribute
import WireForm.Derivation.Grammar.Path

/-!
# Bounds

A bound is a lifetime to outlive or a trait to implement. In front of a trait there can be a
question mark, and lifetimes that the trait is meant for all of. Bounds are added up with plus
signs; behind the last plus sign there may be nothing.

## Main definitions

* `LifetimeParam`, `Reader.lifetimeParam` — a lifetime as it is declared
* `Reader.binder` — the lifetimes that something holds for all of
* `ReadBound`, `Reader.bound` — a bound
* `Reader.sum`, `Reader.object` — added bounds, and those that make a type
-/

namespace WireForm.Derivation

/-- A lifetime as it is declared. -/
structure LifetimeParam where
  /-- The attributes in front. -/
  attributes : Code
  /-- The name. -/
  name : String
  /-- The lifetimes it has to outlive. -/
  bounds : Code
  deriving Repr

/-- A colon and bounds, if there are any bounds. -/
def bounded (bounds : Code) : Code := if bounds.isEmpty then [] else colon ++ bounds

/-- The lifetime as it is declared. -/
def LifetimeParam.code (param : LifetimeParam) : Code :=
  param.attributes ++ lifetime param.name ++ bounded param.bounds

/-- A bound as it is written. -/
structure ReadBound where
  /-- Whether the bound is a trait. -/
  isTrait : Bool
  /-- The bound. -/
  code : Code
  deriving Repr

namespace Reader

/-- A lifetime as it is declared. -/
def lifetimeParam : Reader LifetimeParam := do
  let attrs ← attributesCode
  let name ← lifetimeName
  if (← get).startsMark ':' then
    let _ ← mark ':'
    let stop (code : Code) : Bool := code.startsMark ',' || code.startsMark '>'
    let bounds ← separated '+' stop (lifetime <$> lifetimeName)
    return ⟨attrs, name, bounds.code (operator ['+']) id⟩
  else return ⟨attrs, name, []⟩

/-- The lifetimes that something holds for all of, if the code begins with them. -/
def binder : Reader Code :=
  optional (Code.startsWord ["for"]) do
    let front ← word ["for"]
    let opening ← mark '<'
    let lifetimes ← separated ',' (Code.startsMark '>') lifetimeParam
    return front ++ opening ++ lifetimes.code comma LifetimeParam.code ++ (← mark '>')

/-- A trait without brackets around it. -/
def trait (inner : Inner) : Reader Code := do
  let modifier ← optional (Code.startsMark '?') (mark '?')
  let lifetimes ← binder
  let path ← (← Path.read inner true).readCalled inner
  return modifier ++ lifetimes ++ path.code

/-- A bound. -/
def bound (inner : Inner) : Reader ReadBound := do
  let code ← get
  if code.startsLifetime then return ⟨false, lifetime (← lifetimeName)⟩
  else if code.startsGroup .paren then return ⟨true, parens (← group .paren (trait inner))⟩
  else return ⟨true, ← trait inner⟩

/-- Whether a bound can begin so. -/
def startsBound (code : Code) : Bool :=
  code.startsAnyWord || code.startsColons || code.startsMark '?' || code.startsLifetime ||
    code.startsGroup .paren

/-- A bound with what is added to it: bounds behind plus signs, as long as `stop` does not hold
behind such a sign. -/
def added (inner : Inner) (stop : Code → Bool) (first : ReadBound) :
    Reader (Separated ReadBound) := do
  if (← get).startsMark '+' then
    let _ ← mark '+'
    return .cons first (← separated '+' stop (bound inner))
  else return ⟨[first], false⟩

/-- One bound, or several if they may be added up. -/
def sum (inner : Inner) (sums : Bool) : Reader (Separated ReadBound) := do
  let first ← bound inner
  if sums then added inner (fun code => !startsBound code) first else return ⟨[first], false⟩

/-- Bounds as they are written. -/
def sumCode (bounds : Separated ReadBound) : Code := bounds.code (operator ['+']) ReadBound.code

/-- Bounds of which one is a trait, so that they make a type. -/
def object (inner : Inner) (sums : Bool) : Reader Code := do
  let bounds ← sum inner sums
  if bounds.elements.any ReadBound.isTrait then return sumCode bounds else refuse .unexpected

end Reader

end WireForm.Derivation
