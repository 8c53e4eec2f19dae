import WireForm.Derivation.Grammar.Path

/-!
# Expressions

The expressions that are read are literals, paths and what is in round brackets, with calls, fields
and elements of them, the operators of one and two operands, and conversions to a type. How operands
belong to operators makes no difference to what is written, so operands and operators are read in
a row. Blocks, references and everything else that a body could contain are not read.

A number with a point behind another point is two fields of a tuple.

## Main definitions

* `Reader.expression` — an expression
-/

namespace WireForm.Derivation

namespace Reader

/-- The operators of two operands, longer ones first. -/
def operators : List (List Char) :=
  [['&', '&'], ['|', '|'], ['<', '<'], ['>', '>'], ['=', '='], ['<', '='], ['!', '='], ['>', '='],
    ['+'], ['-'], ['*'], ['/'], ['%'], ['^'], ['&'], ['|'], ['<'], ['>']]

/-- A field of a tuple as it is written, if an integer without a suffix tells its place. -/
def place? (text : String) : Option Code :=
  match Literal.integer? text with
  | some (place, suffix) =>
    if suffix.isEmpty && place < 0x100000000 then some [.literal (toString place)] else none
  | none => none

/-- The fields that a number with a point in it stands for, with a point in front of each, and
whether one more field has to follow. -/
def places? (text : String) : Option (Code × Bool) := do
  let parts := text.splitOn "."
  let (parts, more) := if parts.getLast? == some "" then (parts.dropLast, true) else (parts, false)
  let fields ← parts.mapM place?
  return (fields.flatMap fun field => operator ['.'] ++ field, more)

/-- The name or place of a field. -/
def member : Reader Code := do
  if (← get).startsName then return [.ident (← name)]
  match ← literal? with
  | some [.literal text] => (place? text).elim (refuse .unexpected) pure
  | _ => refuse .unexpected

/-- A number with a point or an exponent, if the code begins with one. -/
def fraction? : Reader (Option String) := do
  let code ← get
  match ← literal? with
  | some [.literal text] =>
    if Literal.kind? text = some .number && (Literal.integer? text).isNone then return some text
    else
      set code
      return none
  | _ =>
    set code
    return none

/-- A point and a field, or several where a number has a point in it. -/
def field : Reader Code := do
  let point ← mark '.'
  match ← fraction? with
  | none => return point ++ (← member)
  | some text =>
    match places? text with
    | none => refuse .unexpected
    | some (fields, false) => return fields
    | some (fields, true) => return fields ++ point ++ (← member)

/-- Whether the field of a value comes next. -/
def startsField (code : Code) : Bool :=
  code.startsMark '.' && !code.startsMarks ['.', '.'] && !code.skip.startsWord ["await"]

/-- What is behind an operand: arguments, fields and indices. The fuel bounds their number. -/
def trailers (inner : Inner) : Nat → Reader Code
  | 0 => return []
  | fuel + 1 => do
    let code ← get
    if code.startsGroup .paren then
      let arguments ← group .paren (commas inner.expression)
      return parens (arguments.code comma id) ++ (← trailers inner fuel)
    else if startsField code then
      return (← field) ++ (← trailers inner fuel)
    else if code.startsGroup .bracket then
      return brackets (← group .bracket inner.expression) ++ (← trailers inner fuel)
    else return []

/-- An operand by itself. -/
def atom (inner : Inner) : Reader Code := do
  match ← literal? with
  | some literal => return literal
  | none =>
    let code ← get
    if code.startsGroup .paren then return parens (← group .paren inner.expression)
    else if code.startsName || code.startsColons || code.startsMark '<' ||
        code.startsWord ["self", "Self", "super", "crate"] then
      return (← Path.readAny inner false).code
    else if code.isEmpty then refuse .unexpected
    else refuse .unsupported

/-- An operand with the operators in front of it and what is behind it. The fuel bounds the number
of operators. -/
def operand (inner : Inner) : Nat → Reader Code
  | 0 => refuse .unexpected
  | fuel + 1 => do
    let code ← get
    match ['*', '!', '-'].find? fun op => code.startsMark op with
    | some op => return (← mark op) ++ (← operand inner fuel)
    | none => return (← atom inner) ++ (← trailers inner (← get).length)

/-- What is behind an operand: operators with their second operands, and conversions. The fuel
bounds their number. -/
def operations (inner : Inner) : Nat → Reader Code
  | 0 => return []
  | fuel + 1 => do
    let code ← get
    match operators.find? fun op => code.startsMarks op with
    | some op =>
      return (← marks op) ++ (← operand inner code.length) ++ (← operations inner fuel)
    | none =>
      if code.startsWord ["as"] then
        return (← word ["as"]) ++ (← inner.single) ++ (← operations inner fuel)
      else return []

/-- An expression. -/
def expression (inner : Inner) : Reader Code := do
  let length := (← get).length
  return (← operand inner (length + 1)) ++ (← operations inner length)

end Reader

end WireForm.Derivation
