/-!
# Code as token trees

Code is a list of tokens. Brackets of the three kinds hold tokens of their own; angle brackets are
plain marks, like every other punctuation character, and so is the mark in front of the name of a
lifetime. An operator of several characters, such as a double colon, is as many tokens; every mark
but its last is joined to the next one.

## Main definitions

* `Token`, `Code` — token trees and lists of them
* `Code.mentions` — whether one of some names occurs, at any depth
* `Code.size` — the number of tokens, at any depth
* `Code.text` — all tokens with one space between them
* `operator`, `parens`, `brackets`, `braces` — small pieces of code
-/

namespace WireForm.Derivation

/-- The brackets that hold tokens. -/
inductive Delimiter where
  | paren
  | bracket
  | brace
  deriving DecidableEq, Repr

namespace Delimiter

/-- The bracket in front. -/
def opening : Delimiter → Char
  | paren => '('
  | bracket => '['
  | brace => '\x7b'

/-- The bracket behind. -/
def closing : Delimiter → Char
  | paren => ')'
  | bracket => ']'
  | brace => '\x7d'

/-- All of them. -/
def all : List Delimiter := [paren, bracket, brace]

end Delimiter

/-- A token. -/
inductive Token where
  /-- A name or keyword. -/
  | ident (name : String)
  /-- One punctuation character, and whether another one comes right behind it. -/
  | punct (mark : Char) (joined : Bool)
  /-- A number, character or string, as it is written. -/
  | literal (text : String)
  /-- Tokens in brackets. -/
  | group (delimiter : Delimiter) (inside : List Token)
  deriving Repr

/-- A piece of code. -/
abbrev Code := List Token

/-- The mark in front of the name of a lifetime. -/
def tick : Char := '\x27'

/-! ### Occurrence of names -/

mutual

/-- Whether one of the names occurs in the token. -/
def Token.mentions (names : List String) : Token → Bool
  | .ident name => names.contains name
  | .group _ inside => Code.mentions names inside
  | .punct _ _ | .literal _ => false

/-- Whether one of the names occurs in the code, at any depth. -/
def Code.mentions (names : List String) : Code → Bool
  | [] => false
  | token :: rest => token.mentions names || Code.mentions names rest

end

/-! ### Size -/

mutual

/-- The number of tokens in a token, brackets counted as one. -/
def Token.size : Token → Nat
  | .group _ inside => Code.size inside + 1
  | .ident _ | .punct _ _ | .literal _ => 1

/-- The number of tokens in code, at any depth. -/
def Code.size : Code → Nat
  | [] => 0
  | token :: rest => token.size + Code.size rest

end

/-! ### Writing code out -/

mutual

/-- The words a token is written as. -/
def Token.words : Token → List String
  | .ident name => [name]
  | .punct mark _ => [mark.toString]
  | .literal text => [text]
  | .group delimiter inside =>
    delimiter.opening.toString :: (Code.words inside ++ [delimiter.closing.toString])

/-- The words code is written as. -/
def Code.words : Code → List String
  | [] => []
  | token :: rest => token.words ++ Code.words rest

end

/-- The code as a text with one space between tokens. -/
def Code.text (code : Code) : String := " ".intercalate (Code.words code)

/-! ### Building code -/

/-- The marks of an operator. -/
def operator : List Char → Code
  | [] => []
  | [mark] => [.punct mark false]
  | mark :: next :: rest => .punct mark true :: operator (next :: rest)

/-- A comma. -/
def comma : Code := operator [',']

/-- A colon. -/
def colon : Code := operator [':']

/-- The end of a statement. -/
def semicolon : Code := operator [';']

/-- A lifetime. -/
def lifetime (name : String) : Code := [.punct tick true, .ident name]

/-- Code in round brackets. -/
def parens (inside : Code) : Code := [.group .paren inside]

/-- Code in square brackets. -/
def brackets (inside : Code) : Code := [.group .bracket inside]

/-- Code in curly brackets. -/
def braces (inside : Code) : Code := [.group .brace inside]

end WireForm.Derivation
