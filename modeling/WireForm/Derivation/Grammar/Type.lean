import WireForm.Derivation.Grammar.Bound
import WireForm.Derivation.Grammar.Expression
import WireForm.Derivation.Grammar.Function

/-!
# Types

The types are paths and macros, references and pointers, tuples, arrays and slices, functions, sums
of bounds with `dyn` or `impl` in front of them or without, and the two marks that stand for types
of their own. Where a type is followed by a plus sign that is not its own, it can be no sum.

Types contain types and expressions, and expressions contain types. What reads them at one depth is
made from what reads them one level further inside, and no code is deeper than it has tokens.

## Main definitions

* `Reader.typeWith` — a type, given readers of what is inside of it
* `Inner.ofDepth` — the readers of types and expressions
* `Reader.type`, `Reader.value` — a type and an expression
-/

namespace WireForm.Derivation

namespace ReadType

/-- A type that is no bound. -/
def plain (code : Code) : ReadType := ⟨code, none⟩

/-- A type that is one bound. -/
def ofBound (code : Code) : ReadType := ⟨code, some code⟩

end ReadType

namespace Reader

/-- A macro's arguments behind the path of the macro. -/
def macroArguments (path : Path) : Reader Code := do
  return path.code ++ (← mark '!') ++ (← anyGroup)

/-- Bounds with plus signs behind a first bound in round brackets. Behind every plus sign there is a
bound. -/
def sumAfter (inner : Inner) (first : Code) : Reader ReadType := do
  let bounds ← added inner (fun _ => false) ⟨true, parens first⟩
  let code := sumCode bounds
  return ⟨code, if bounds.elements.length = 1 then some first else none⟩

/-- What is in round brackets. -/
inductive Bracketed where
  /-- A type, or several, which brackets make another type of. -/
  | type (code : Code)
  /-- One bound that is not any other type. -/
  | bound (code : Code)
  /-- One type that is also one bound. -/
  | either (code bound : Code)

/-- What is in round brackets. -/
def bracketed (inner : Inner) : Reader Bracketed := do
  let code ← get
  if code.isEmpty then return .type []
  else if code.startsLifetime then return .type (← object inner true)
  else if code.startsMark '?' then return .bound (← trait inner)
  else
    let first ← inner.type true
    if (← get).startsMark ',' then
      let separator ← mark ','
      let more ← commas inner.sum
      return .type (first.code ++ separator ++ more.code comma id)
    else
      return match first.bound with
        | some bound => .either first.code bound
        | none => .type first.code

/-- A type that begins with round brackets. -/
def typeInParens (inner : Inner) (sums : Bool) : Reader ReadType := do
  match ← group .paren (bracketed inner) with
  | .type code => return .plain (parens code)
  | .bound code => sumAfter inner code
  | .either code bound =>
    if sums && (← get).startsMark '+' then sumAfter inner bound else return .plain (parens code)

/-- A type that begins with the keyword of bounds that are not known before the program runs. With a
star it is kept as it is. -/
def dynamicType (inner : Inner) (sums : Bool) : Reader ReadType := do
  let start ← get
  let keyword ← word ["dyn"]
  if (← get).startsMark '*' then
    let _ ← mark '*'
    let _ ← object inner sums
    return .plain (← takenSince start)
  else return .plain (keyword ++ (← object inner sums))

/-- A type that begins with a path, behind lifetimes it holds for all of. -/
def namedType (inner : Inner) (sums : Bool) (lifetimes : Code) : Reader ReadType := do
  let path ← (← Path.readAny inner true).readCalled inner
  if path.isQualified then return .plain path.code
  let code ← get
  if code.startsMark '!' && !code.startsMarks ['!', '='] && !path.hasArguments then
    return .plain (← macroArguments path)
  if lifetimes.isEmpty && !(sums && code.startsMark '+') then return .ofBound path.code
  let first := lifetimes ++ path.code
  if sums then
    let bounds ← added inner (fun code => !startsBound code) ⟨true, first⟩
    let single := bounds.elements.length = 1 && !bounds.trailing
    return ⟨sumCode bounds, if single then some first else none⟩
  else return .ofBound first

/-- An array or slice. -/
def arrayType (inner : Inner) : Reader ReadType := do
  let inside ← group .bracket do
    let element ← inner.sum
    let length ← optional (Code.startsMark ';') do
      return (← mark ';') ++ (← inner.expression)
    return element ++ length
  return .plain (brackets inside)

/-- A pointer. -/
def pointerType (inner : Inner) : Reader ReadType := do
  return .plain ((← mark '*') ++ (← word ["const", "mut"]) ++ (← inner.single))

/-- A reference. -/
def referenceType (inner : Inner) : Reader ReadType := do
  let front ← mark '&'
  let name ← optional Code.startsLifetime (lifetime <$> lifetimeName)
  let mutability ← optional (Code.startsWord ["mut"]) (word ["mut"])
  return .plain (front ++ name ++ mutability ++ (← inner.single))

/-- Whether a type follows lifetimes that it holds for all of. -/
def startsBoundType (code : Code) : Bool :=
  (code.startsName && !code.startsWord ["dyn"]) ||
    code.startsWord ["fn", "unsafe", "extern", "super", "self", "Self", "crate"]

/-- Whether a type comes next that begins with a path. -/
def startsPath (code : Code) : Bool :=
  code.startsName || code.startsWord ["super", "self", "Self", "crate"] || code.startsColons ||
    code.startsMark '<'

/-- A type, given readers of what is inside of it. The flag says whether it may be a sum of
bounds. -/
def typeWith (inner : Inner) (sums : Bool) : Reader ReadType := do
  let start ← get
  let lifetimes ← binder
  let code ← get
  if !lifetimes.isEmpty && !startsBoundType code then refuse .unexpected
  else if code.startsGroup .paren then typeInParens inner sums
  else if code.startsWord ["fn", "unsafe", "extern"] then
    return .plain (← function inner start lifetimes)
  else if code.startsWord ["dyn"] then dynamicType inner sums
  else if startsPath code then namedType inner sums lifetimes
  else if code.startsGroup .bracket then arrayType inner
  else if code.startsMark '*' then pointerType inner
  else if code.startsMark '&' then referenceType inner
  else if code.startsMark '!' then return .plain (← mark '!')
  else if code.startsWord ["impl"] then
    return .plain ((← word ["impl"]) ++ (← object inner sums))
  else if code.startsWord ["_"] then return .plain (← word ["_"])
  else if code.startsLifetime then return .plain (← object inner true)
  else refuse .unexpected

end Reader

/-- The readers of types and expressions that are not deeper than this. -/
def Inner.ofDepth : Nat → Inner
  | 0 => ⟨fun _ => Reader.refuse .unexpected, Reader.refuse .unexpected⟩
  | depth + 1 =>
    ⟨Reader.typeWith (ofDepth depth), Reader.expression (ofDepth depth)⟩

namespace Reader

/-- The readers of types and expressions in the code in front. -/
def inner : Reader Inner := do
  return Inner.ofDepth ((← get).size + 1)

/-- A type. -/
def type : Reader Code := do (← inner).sum

/-- An expression. -/
def value : Reader Code := do (← inner).expression

end Reader

end WireForm.Derivation
