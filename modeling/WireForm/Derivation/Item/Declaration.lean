import WireForm.Derivation.Item

/-!
# Items from their declarations

The declaration of an item is its attributes and visibility, a keyword and its name, its parameters,
and its fields or variants. The conditions on the parameters come behind the fields of a record
whose fields have no names, and in front of all others. Fields and variants have attributes and a
visibility too; like the integers of variants they are read and forgotten.

## Main definitions

* `Reader.visibility`, `Reader.namedField`, `Reader.variant` — parts of a declaration
* `Reader.item`, `Item.ofText` — a declaration
-/

namespace WireForm.Derivation

namespace Reader

/-- Whether a group in round brackets restricts a visibility to one module around the item. -/
def restricts : Code → Bool
  | .group .paren [.ident word] :: _ => ["crate", "self", "super"].contains word
  | _ => false

/-- Whether a group in round brackets restricts a visibility to what a path names. -/
def restrictsIn : Code → Bool
  | .group .paren inside :: _ => Code.startsWord ["in"] inside
  | _ => false

/-- The visibility, if one is given. -/
def visibility : Reader Unit := do
  let code ← get
  if code.startsWord ["pub"] then
    let _ ← word ["pub"]
    let rest ← get
    if restricts rest then
      let _ ← anyGroup
    else if restrictsIn rest then
      let _ ← group .paren do return (← word ["in"]) ++ (← plainPath)
  else if code.startsWord ["crate"] && !code.skip.startsColons then
    let _ ← word ["crate"]

/-- A field with a name. -/
def namedField : Reader Field := do
  let _ ← attributes
  visibility
  let name ← name
  let _ ← mark ':'
  return ⟨.named name, ← type⟩

/-- The type of a field without a name. -/
def unnamedField : Reader Code := do
  let _ ← attributes
  visibility
  type

/-- Fields with names. -/
def namedFields : Reader (List Field) := do
  return (← group .brace (commas namedField)).elements

/-- Fields without names. -/
def unnamedFields : Reader (List Field) := do
  let types ← group .paren (commas unnamedField)
  return types.elements.zipIdx.map fun (type, place) => ⟨.index place, type⟩

/-- A variant. -/
def variant : Reader Variant := do
  let _ ← attributes
  visibility
  let name ← name
  let code ← get
  let _ ←
    if code.startsGroup .brace then namedFields
    else if code.startsGroup .paren then unnamedFields
    else pure []
  let _ ← optional (Code.startsMark '=') do return (← mark '=') ++ (← value)
  return ⟨name, !code.startsGroup .brace && !code.startsGroup .paren⟩

/-- The fields of a record, and the conditions on its parameters. -/
def recordBody : Reader (List Field × Separated Code) := do
  let first ← get
  if first.startsGroup .paren then
    let fields ← unnamedFields
    let given ← conditions
    let _ ← mark ';'
    return (fields, given)
  else
    let given ← conditions
    if (← get).startsGroup .brace then return (← namedFields, given)
    else
      let _ ← mark ';'
      return ([], given)

/-- What an item consists of, and the conditions on its parameters. -/
def body (keyword : String) : Reader (Body × Separated Code) := do
  match keyword with
  | "struct" =>
    let (fields, given) ← recordBody
    return (.record fields, given)
  | "enum" =>
    let given ← conditions
    return (.enumeration (← group .brace (commas variant)).elements, given)
  | "union" =>
    let given ← conditions
    let _ ← namedFields
    return (.union, given)
  | _ => refuse .unexpected

/-- An item. -/
def item : Reader Item := do
  let attrs ← attributes
  visibility
  let keyword ← anyWord
  let name ← name
  let params ← params
  let (body, given) ← body keyword
  return ⟨name, attrs, ⟨params, given, []⟩, body⟩

end Reader

/-- The item that a text declares. -/
def Item.ofText (text : String) : Except Misread Item :=
  match Code.ofText? text with
  | none => .error .unexpected
  | some code => Reader.item.readAll code

end WireForm.Derivation
