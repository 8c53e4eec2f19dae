import WireForm.Derivation.Reader

/-!
# Paths

A path is made of segments, and a segment may have arguments: in angle brackets, or, like those of a
function, in round brackets with a result. In types angle brackets come right behind the name; in
expressions, where they could be comparisons, only behind a double colon. A path can begin with a
type in angle brackets, whose associated items it names.

Angle brackets are written back with lifetimes in front. A constant in braces gets another pair of
braces. Round brackets take the place of angle brackets without arguments, and of a double colon.

## Main definitions

* `ReadType`, `Inner` — readers of what a path contains
* `Segment`, `Path` — paths
* `Path.read`, `Path.readAny` — paths, and those that may begin with a type
* `Path.readCalled` — arguments in round brackets behind a path
-/

namespace WireForm.Derivation

/-- A type as it is written. -/
structure ReadType where
  /-- The type. -/
  code : Code
  /-- The bound that the type consists of, without brackets around it, if the type is one bound and
  no keyword is in front of it. -/
  bound : Option Code
  deriving Repr

/-- Readers of types and expressions that are inside of something else. The flag of the first says
whether the type may be a sum of bounds. -/
structure Inner where
  type : Bool → Reader ReadType
  expression : Reader Code

/-- A type. -/
def Inner.sum (inner : Inner) : Reader Code := ReadType.code <$> inner.type true

/-- A type that is no sum of bounds. -/
def Inner.single (inner : Inner) : Reader Code := ReadType.code <$> inner.type false

/-- A segment of a path. -/
structure Segment where
  /-- The name. -/
  name : String
  /-- The arguments with the brackets around them, or nothing. -/
  arguments : Code
  /-- Whether the segment is without arguments, be there brackets or not. -/
  isBare : Bool
  deriving Repr

/-- A path. -/
structure Path where
  /-- What is in front of the segments. -/
  lead : Code
  /-- Whether a type is in front of the segments. -/
  isQualified : Bool
  /-- The segments. -/
  segments : List Segment
  deriving Repr

/-- The segment as it is written. -/
def Segment.code (segment : Segment) : Code := .ident segment.name :: segment.arguments

namespace Path

/-- The path as it is written. -/
def code (path : Path) : Code :=
  path.lead ++ ((path.segments.map Segment.code).intersperse (operator [':', ':'])).flatten

/-- Whether a segment has brackets. -/
def hasArguments (path : Path) : Bool := path.segments.any fun segment => !segment.arguments.isEmpty

/-! ### Arguments -/

/-- An argument in angle brackets. -/
structure Argument where
  /-- Whether it is a lifetime. -/
  isLifetime : Bool
  /-- The argument as it is written. -/
  code : Code
  deriving Repr

/-- The value of a named argument: a literal, an expression in braces, or a type. -/
def readValue (inner : Inner) : Reader Code := do
  match ← Reader.literal? with
  | some literal => return literal
  | none =>
    let start ← get
    if start.startsGroup .brace then
      let _ ← Reader.group .brace inner.expression
      Reader.takenSince start
    else inner.sum

/-- An argument that is no lifetime: one with a name, a literal, an expression in braces, or a
type. -/
def readPlainArgument (inner : Inner) : Reader Code := do
  let start ← get
  if start.startsName && start.skip.startsMark '=' then
    return [.ident (← Reader.name)] ++ (← Reader.mark '=') ++ (← readValue inner)
  else
    match ← Reader.literal? with
    | some literal => return literal
    | none =>
      if start.startsGroup .brace then
        let _ ← Reader.group .brace inner.expression
        return braces (← Reader.takenSince start)
      else inner.sum

/-- An argument in angle brackets. A lifetime in front of a plus sign begins a sum of bounds. -/
def readArgument (inner : Inner) : Reader Argument := do
  let start ← get
  if start.startsLifetime && !start.skip.startsMark '+' then
    return ⟨true, lifetime (← Reader.lifetimeName)⟩
  else return ⟨false, ← readPlainArgument inner⟩

/-- Arguments in angle brackets, with a double colon in front or not, and whether there are none. -/
def readArguments (inner : Inner) : Reader (Code × Bool) := do
  let front ← Reader.optional Code.startsColons Reader.colons
  let opening ← Reader.mark '<'
  let arguments ← Reader.separated ',' (Code.startsMark '>') (readArgument inner)
  let closing ← Reader.mark '>'
  let inside := arguments.lifetimesFirst Argument.isLifetime Argument.code
  return (front ++ opening ++ inside ++ closing, arguments.elements.isEmpty)

/-- The result of a function, if there is one. -/
def readResult (inner : Inner) : Reader Code :=
  Reader.optional (Code.startsMarks ['-', '>']) do
    return (← Reader.marks ['-', '>']) ++ (← inner.single)

/-- Types in round brackets, and a result. -/
def readCall (inner : Inner) : Reader Code := do
  let types ← Reader.group .paren (Reader.commas inner.sum)
  return parens (types.code comma id) ++ (← readResult inner)

/-! ### Segments -/

/-- Whether arguments in angle brackets follow the name of a segment. -/
def startsArguments (inType : Bool) (code : Code) : Bool :=
  (inType && code.startsMark '<' && !code.startsMarks ['<', '=']) ||
    (code.startsColons && code.skip.skip.startsMark '<')

/-- A segment. -/
def readSegment (inner : Inner) (inType : Bool) : Reader Segment := do
  if (← get).startsWord ["super", "self", "crate"] then return ⟨← Reader.anyWord, [], true⟩
  let name ← if (← get).startsWord ["Self"] then Reader.anyWord else Reader.name
  if startsArguments inType (← get) then
    let (arguments, isBare) ← readArguments inner
    return ⟨name, arguments, isBare⟩
  else return ⟨name, [], true⟩

/-- Whether arguments in round brackets come next, behind a double colon or not. -/
def startsCall (code : Code) : Bool :=
  code.startsGroup .paren || (code.startsColons && code.skip.skip.startsGroup .paren)

/-- The segments behind the first one. The flag `toCall` says that a double colon in front of round
brackets is not looked behind. The fuel bounds their number. -/
def readMore (inner : Inner) (inType toCall : Bool) : Nat → Reader (List Segment)
  | 0 => return []
  | fuel + 1 => do
    let code ← get
    if code.startsColons && !(toCall && startsCall code) then
      let _ ← Reader.colons
      let segment ← readSegment inner inType
      return segment :: (← readMore inner inType toCall fuel)
    else return []

/-- One segment or more. -/
def readSegments (inner : Inner) (inType toCall : Bool) : Reader (List Segment) := do
  let first ← readSegment inner inType
  return first :: (← readMore inner inType toCall (← get).length)

/-- A path that begins with a name. -/
def read (inner : Inner) (inType : Bool) : Reader Path := do
  let lead ← Reader.optional Code.startsColons Reader.colons
  return ⟨lead, false, ← readSegments inner inType true⟩

/-- A type in angle brackets, seen as a trait or not, with the double colon behind it. -/
def readQualifier (inner : Inner) : Reader Code := do
  let opening ← Reader.mark '<'
  let type ← inner.sum
  let trait ← Reader.optional (Code.startsWord ["as"]) do
    return (← Reader.word ["as"]) ++ (← read inner true).code
  return opening ++ type ++ trait ++ (← Reader.mark '>') ++ (← Reader.colons)

/-- A path that begins with a name or with a type in angle brackets. -/
def readAny (inner : Inner) (inType : Bool) : Reader Path := do
  if (← get).startsMark '<' then
    let lead ← readQualifier inner
    return ⟨lead, true, ← readSegments inner inType false⟩
  else read inner inType

/-- Give the last segment these arguments in round brackets. -/
def callLast (call : Code) : List Segment → List Segment
  | [] => []
  | [segment] => [{ segment with arguments := call, isBare := false }]
  | segment :: next :: rest => segment :: callLast call (next :: rest)

/-- The path with arguments in round brackets, if they follow it. -/
def readCalled (inner : Inner) (path : Path) : Reader Path := do
  if (path.segments.getLast?.any Segment.isBare) && startsCall (← get) then
    let _ ← Reader.optional Code.startsColons Reader.colons
    return { path with segments := callLast (← readCall inner) path.segments }
  else return path

end Path

end WireForm.Derivation
