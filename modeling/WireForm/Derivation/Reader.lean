import WireForm.Derivation.Separated
import WireForm.Derivation.Token.Literal

/-!
# Reading code

A reader takes what it wants from the front of some code. What it gives back is mostly code again:
that part as it is written out, which differs from how it was read where a form has a second
spelling. Whether something can begin here is told from the tokens in front, and is a question to
the code rather than to the reader.

## Main definitions

* `Misread` — why code cannot be read
* `Code.startsName`, `Code.startsMarks`, … — what code begins with
* `Passing` — values, and whether tokens were passed over on the way to them
* `Reader`, `Reader.readAll` — readers, and what they make of all of some code
* `Reader.first`, `Reader.group` — readers of single tokens and groups
* `Reader.literal?` — the literal in front, if there is one
* `Reader.separated` — lists with separators
-/

namespace WireForm.Derivation

/-- Why code cannot be read as what is wanted there. -/
inductive Misread where
  /-- Something else is wanted there. -/
  | unexpected
  /-- An expression is wanted there, and this is one of a kind that is not read. -/
  | unsupported
  /-- There is a literal of no known kind. -/
  | unknownLiteral (text : String)
  /-- A parameter follows another one without a separator. -/
  | missingSeparator
  deriving DecidableEq, Repr

namespace Misread

/-- Whether reading stops at once, whatever else would be made of the code. -/
def isFatal : Misread → Bool
  | unexpected | unsupported => false
  | unknownLiteral _ | missingSeparator => true

/-- The wording. -/
def message : Misread → String
  | unexpected => "unexpected token"
  | unsupported => "unsupported expression; enable syn's features=[\x22full\x22]"
  | unknownLiteral text => "Unrecognized literal: `" ++ text ++ "`"
  | missingSeparator =>
    "Punctuated::push_value: cannot push value if Punctuated is missing trailing punctuation"

end Misread

/-- The words that are no names. -/
def keywords : List String :=
  ["_", "abstract", "as", "become", "box", "break", "const", "continue", "crate", "do", "else",
    "enum", "extern", "false", "final", "fn", "for", "if", "impl", "in", "let", "loop", "macro",
    "match", "mod", "move", "mut", "override", "priv", "pub", "ref", "return", "Self", "self",
    "static", "struct", "super", "trait", "true", "type", "typeof", "unsafe", "unsized", "use",
    "virtual", "where", "while", "yield"]

/-- Whether a word is a name. -/
def isName (word : String) : Bool := !keywords.contains word

/-! ### What code begins with -/

namespace Code

/-- Whether the code begins with one of these words. -/
def startsWord (words : List String) : Code → Bool
  | .ident word :: _ => words.contains word
  | _ => false

/-- Whether the code begins with a word, be it a name or not. -/
def startsAnyWord : Code → Bool
  | .ident _ :: _ => true
  | _ => false

/-- Whether the code begins with a name. -/
def startsName : Code → Bool
  | .ident word :: _ => isName word
  | _ => false

/-- Whether the code begins with these marks, all but the last joined to the next one. -/
def startsMarks : List Char → Code → Bool
  | [], _ => true
  | [mark], .punct first _ :: _ => first == mark
  | mark :: next :: marks, .punct first joined :: rest =>
    first == mark && joined && startsMarks (next :: marks) rest
  | _, _ => false

/-- Whether the code begins with this mark. -/
def startsMark (mark : Char) (code : Code) : Bool := startsMarks [mark] code

/-- Whether the code begins with a double colon. -/
def startsColons (code : Code) : Bool := startsMarks [':', ':'] code

/-- Whether the code begins with a lifetime. -/
def startsLifetime : Code → Bool
  | .punct mark _ :: .ident _ :: _ => mark == tick
  | _ => false

/-- Whether the code begins with a group in these brackets. -/
def startsGroup (delimiter : Delimiter) : Code → Bool
  | .group opened _ :: _ => opened == delimiter
  | _ => false

/-- The code behind its first token, where a lifetime counts as one token. -/
def skip : Code → Code
  | [] => []
  | .punct mark _ :: .ident name :: rest => if mark == tick then rest else .ident name :: rest
  | _ :: rest => rest

end Code

/-! ### Readers -/

/-- A value, and whether tokens were passed over on the way to it. -/
structure Passing (α : Type) where
  /-- The value. -/
  value : α
  /-- Whether tokens were passed over. -/
  passed : Bool

namespace Passing

instance : Monad Passing where
  pure a := ⟨a, false⟩
  bind x f :=
    let y := f x.value
    ⟨y.value, x.passed || y.passed⟩

/-- Pass tokens over. -/
def passOver : Passing Unit := ⟨⟨⟩, true⟩

/-- Nothing is passed over where neither of two does so. -/
theorem bind_eq_unpassed {α β : Type} {x : Passing α} {f : α → Passing β} {b : β} :
    x >>= f = ⟨b, false⟩ ↔ x.passed = false ∧ f x.value = ⟨b, false⟩ := by
  show (⟨(f x.value).value, x.passed || (f x.value).passed⟩ : Passing β) = _ ↔ _
  obtain ⟨value, passed⟩ := f x.value
  simp only [Passing.mk.injEq, Bool.or_eq_false_iff]
  exact and_left_comm

end Passing

/-- A reader takes tokens from the front of code, or says why it cannot. Tokens that nothing takes
at the end of a group are passed over, so that what else is wrong is found. -/
abbrev Reader := StateT Code (ExceptT Misread Passing)

namespace Reader

variable {α : Type}

/-- What the reader makes of all of the code. Neither the code nor a group in it may have tokens
that nothing takes. -/
def readAll (reader : Reader α) (code : Code) : Except Misread α :=
  match (reader.run code).run with
  | ⟨.error misread, _⟩ => .error misread
  | ⟨.ok (a, []), false⟩ => .ok a
  | ⟨.ok _, _⟩ => .error .unexpected

/-- Give up. -/
def refuse (misread : Misread) : Reader α := throw misread

/-- Take the first token, if it has something to give. -/
def first (give : Token → Option α) : Reader α := do
  match ← get with
  | [] => refuse .unexpected
  | token :: rest =>
    match give token with
    | some a =>
      set rest
      return a
    | none => refuse .unexpected

/-- The word in front, be it a name or not. -/
def anyWord : Reader String :=
  first fun
    | .ident word => some word
    | _ => none

/-- The name in front. -/
def name : Reader String := do
  if (← get).startsName then anyWord else refuse .unexpected

/-- One of these words. -/
def word (words : List String) : Reader Code := do
  if (← get).startsWord words then return [.ident (← anyWord)] else refuse .unexpected

/-- These marks, all but the last joined to the next one. -/
def marks (wanted : List Char) : Reader Code := do
  let code ← get
  if code.startsMarks wanted then
    set (code.drop wanted.length)
    return operator wanted
  else refuse .unexpected

/-- This mark. -/
def mark (wanted : Char) : Reader Code := marks [wanted]

/-- A double colon. -/
def colons : Reader Code := marks [':', ':']

/-- The name of the lifetime in front. -/
def lifetimeName : Reader String := do
  if (← get).startsLifetime then
    let _ ← mark tick
    anyWord
  else refuse .unexpected

/-- What `inside` makes of the group in front. -/
def group (delimiter : Delimiter) (inside : Reader α) : Reader α := do
  let content ← first fun
    | .group opened content => if opened == delimiter then some content else none
    | _ => none
  let behind ← get
  set content
  let a ← inside
  unless (← get).isEmpty do Passing.passOver
  set behind
  return a

/-- All tokens that are left. -/
def everything : Reader Code := getModify fun _ => []

/-- A group in brackets of any kind, as it is. -/
def anyGroup : Reader Code :=
  first fun
    | .group opened content => some [.group opened content]
    | _ => none

/-- What `reader` reads, if the code begins with what it wants. -/
def optional (wanted : Code → Bool) (reader : Reader Code) : Reader Code := do
  if wanted (← get) then reader else return []

/-- The tokens that were taken since the code in front was `start`. -/
def takenSince (start : Code) : Reader Code := do
  return start.take (start.length - (← get).length)

/-- The literal in front, if there is one: a literal token, a truth value, or a number with a minus
sign in front of it. -/
def literal? : Reader (Option Code) := do
  match ← get with
  | .literal text :: rest =>
    if (Literal.kind? text).isSome then
      set rest
      return some [.literal text]
    else refuse (.unknownLiteral text)
  | .punct '-' _ :: .literal text :: rest =>
    if Literal.kind? text = some .number then
      set rest
      return some (operator ['-'] ++ [.literal text])
    else return none
  | .ident word :: rest =>
    if ["true", "false"].contains word then
      set rest
      return some [.ident word]
    else return none
  | _ => return none

/-! ### Lists -/

/-- Elements with marks between them, as long as `stop` does not hold in front of one. The fuel
bounds their number. -/
def separatedWithin (separator : Char) (stop : Code → Bool) (element : Reader α) :
    Nat → Reader (Separated α)
  | 0 => return .empty
  | fuel + 1 => do
    if stop (← get) then return .empty
    let first ← element
    if (← get).startsMark separator then
      let _ ← mark separator
      return .cons first (← separatedWithin separator stop element fuel)
    else return ⟨[first], false⟩

/-- Elements with marks between them, as long as `stop` does not hold in front of one. -/
def separated (separator : Char) (stop : Code → Bool) (element : Reader α) :
    Reader (Separated α) := do
  separatedWithin separator stop element ((← get).length + 1)

/-- Elements with commas between them, up to the end. -/
def commas (element : Reader α) : Reader (Separated α) := separated ',' List.isEmpty element

end Reader

end WireForm.Derivation
