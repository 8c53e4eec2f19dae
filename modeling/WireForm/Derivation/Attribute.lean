import WireForm.Derivation.Reader

/-!
# Attributes

An attribute is a path, and any tokens behind it. One with a single name as its path is known by
that name.

## Main definitions

* `Attribute`, `Attribute.isNamed` — attributes and their names
* `Reader.attributes` — the attributes in front of something
* `Attribute.code` — an attribute as it is written
-/

namespace WireForm.Derivation

/-- An attribute. -/
structure Attribute where
  /-- The path. -/
  path : Code
  /-- What is behind the path. -/
  content : Code
  deriving Repr

namespace Attribute

/-- Whether an attribute has this name, and not a longer path that contains it. -/
def isNamed (name : String) (attr : Attribute) : Bool :=
  match attr.path with
  | [.ident word] => word == name
  | _ => false

/-- The attribute as it is written. -/
def code (attr : Attribute) : Code := operator ['#'] ++ brackets (attr.path ++ attr.content)

end Attribute

namespace Reader

/-- Words with double colons between them. The fuel bounds their number. -/
def plainPathWithin : Nat → Reader Code
  | 0 => refuse .unexpected
  | fuel + 1 => do
    let code ← get
    if code.startsName || code.startsWord ["super", "self", "Self", "crate"] then
      let first : Code := [.ident (← anyWord)]
      let rest ← optional Code.startsColons do return (← colons) ++ (← plainPathWithin fuel)
      return first ++ rest
    else refuse .unexpected

/-- A path without arguments. -/
def plainPath : Reader Code := do
  return (← optional Code.startsColons colons) ++ (← plainPathWithin (← get).length)

/-- An attribute. -/
def oneAttribute : Reader Attribute := do
  let _ ← mark '#'
  group .bracket do
    let path ← plainPath
    return ⟨path, ← everything⟩

/-- The attributes in front. The fuel bounds their number. -/
def attributesWithin : Nat → Reader (List Attribute)
  | 0 => return []
  | fuel + 1 => do
    if (← get).startsMark '#' then return (← oneAttribute) :: (← attributesWithin fuel)
    else return []

/-- The attributes in front. -/
def attributes : Reader (List Attribute) := do
  attributesWithin (← get).length

/-- The attributes in front, as they are written. -/
def attributesCode : Reader Code := do
  return (← attributes).flatMap Attribute.code

end Reader

end WireForm.Derivation
