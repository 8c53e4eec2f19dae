import WireForm.Derivation.Attribute
import WireForm.Derivation.Grammar.Path

/-!
# Types of functions

A function's type lists its parameters, each with a name or without, and may end in three dots that
stand for more of them. A parameter can also be the value a method is called on, to be changed; then
the whole type is kept as it is. Behind such a parameter commas do not count, so that no two others
can follow it.

## Main definitions

* `Reader.parameter` — a parameter
* `Reader.function` — the type of a function
-/

namespace WireForm.Derivation

namespace Reader

/-- Three dots. -/
def dots : List Char := ['.', '.', '.']

/-- Whether a colon comes next that is not the first of two. -/
def startsColon (code : Code) : Bool := code.startsMark ':' && !code.startsColons

/-- Whether the value a method is called on comes next, to be changed. -/
def startsReceiver (code : Code) : Bool :=
  code.startsWord ["mut"] && code.skip.startsWord ["self"]

/-- The value a method is called on, to be changed. -/
def receiver : Reader Code := do
  return (← word ["mut"]) ++ (← word ["self"])

/-- The type of a parameter, or dots in its place. There is none if the parameter is the value a
method is called on. -/
def parameterType (inner : Inner) : Reader (Option Code) := do
  let code ← get
  if code.startsMarks dots then return some (← marks dots)
  else if startsReceiver code then
    let _ ← receiver
    return none
  else return some (← inner.sum)

/-- A parameter, if it is not the value a method is called on. -/
def parameter (inner : Inner) : Reader (Option Code) := do
  let code ← get
  if (code.startsName || code.startsWord ["_", "self"]) && startsColon code.skip then
    let name : Code := [.ident (← anyWord)]
    let separator ← mark ':'
    return (← parameterType inner).map fun type => name ++ separator ++ type
  else if startsReceiver code && startsColon code.skip.skip then
    let _ ← receiver
    let _ ← mark ':'
    let _ ← inner.sum
    return none
  else parameterType inner

/-- Parameters as they are written, and whether one of them is the value a method is called on. -/
structure Parameters where
  /-- The parameters. -/
  code : Code
  /-- Whether one is the value a method is called on. -/
  hasReceiver : Bool
  deriving Repr

/-- The parameters up to the end. The first flag says whether the value a method is called on was
among those in front, the second whether another parameter may come next. The fuel bounds the number
of parameters. -/
def parameters (inner : Inner) (hasReceiver ready : Bool) : Nat → Reader Parameters
  | 0 => return ⟨[], hasReceiver⟩
  | fuel + 1 => do
    if (← get).isEmpty then return ⟨[], hasReceiver⟩
    let attrs ← attributesCode
    if ready && (← get).startsMarks dots then return ⟨attrs ++ (← marks dots), hasReceiver⟩
    let param ← parameter inner
    if param.isSome && !ready then refuse .missingSeparator
    let hasReceiver := hasReceiver || param.isNone
    if (← get).isEmpty then return ⟨attrs ++ param.getD [], hasReceiver⟩
    let separator ← mark ','
    let rest ← parameters inner hasReceiver (!hasReceiver || (ready && param.isNone)) fuel
    return { rest with code := attrs ++ param.getD [] ++ separator ++ rest.code }

/-- The calling convention of a function, if there is one. -/
def convention : Reader Code :=
  optional (Code.startsWord ["extern"]) do
    let front ← word ["extern"]
    let code ← get
    match ← literal? with
    | some [.literal text] =>
      if Literal.kind? text = some .string then return front ++ [.literal text]
      else
        set code
        return front
    | _ =>
      set code
      return front

/-- The type of a function, behind lifetimes it holds for all of. The code in front of these was
`start`. -/
def function (inner : Inner) (start lifetimes : Code) : Reader Code := do
  let safety ← optional (Code.startsWord ["unsafe"]) (word ["unsafe"])
  let calling ← convention
  let keyword ← word ["fn"]
  let params ← group .paren do
    parameters inner false true ((← get).length + 1)
  let result ← Path.readResult inner
  if params.hasReceiver then takenSince start
  else return lifetimes ++ safety ++ calling ++ keyword ++ parens params.code ++ result

end Reader

end WireForm.Derivation
