import WireForm.Text.Quoted
import WireForm.Derivation.Token
import WireForm.Derivation.Token.Literal

/-!
# From text to code

A text is cut into atoms and brackets, and the brackets are then matched with a stack of open
groups. A text with an unfinished string or comment, with a character that has no meaning, or with
brackets that do not match, is no code.

Blanks and comments only keep tokens apart. A comment that documents what follows or encloses it
stands for an attribute with its text. The mark in front of a lifetime also opens a character; it is
one if the mark closes it after one character, or after a backslash and what belongs to it.

## Main definitions

* `Lexer.comment?` — the comment at the front of a text
* `Lexeme`, `Lexer.scan` — the atoms and brackets of a text
* `Lexer.nest` — matching the brackets
* `Code.ofText?`, `snippet` — the code a text stands for
-/

namespace WireForm.Derivation

/-- An atom or a bracket. -/
inductive Lexeme where
  | atom (token : Token)
  | opening (delimiter : Delimiter)
  | closing (delimiter : Delimiter)
  deriving Repr

namespace Lexer

/-! ### Comments -/

/-- What a comment is for. -/
inductive Purpose where
  /-- It is for the reader only. -/
  | none
  /-- It documents what follows. -/
  | outer
  /-- It documents what it stands in. -/
  | inner
  deriving DecidableEq, Repr

/-- A comment. -/
structure Comment where
  /-- What it is for. -/
  purpose : Purpose
  /-- Its text, without the marks around it. -/
  text : List Char
  deriving Repr

/-- The rest of the line without the end of the line, then what is left. -/
def line : List Char → List Char × List Char
  | [] => ([], [])
  | '\n' :: rest => ([], '\n' :: rest)
  | '\r' :: '\n' :: rest => ([], '\n' :: rest)
  | c :: rest => let (text, left) := line rest; (c :: text, left)

/-- Everything up to the end of a comment in which this many others are open, then what is left. -/
def block : Nat → List Char → Option (List Char × List Char)
  | _, [] => none
  | depth, '/' :: '*' :: rest =>
    (block (depth + 1) rest).map fun (text, left) => ('/' :: '*' :: text, left)
  | 0, '*' :: '/' :: rest => some ([], rest)
  | depth + 1, '*' :: '/' :: rest =>
    (block depth rest).map fun (text, left) => ('*' :: '/' :: text, left)
  | depth, c :: rest => (block depth rest).map fun (text, left) => (c :: text, left)

/-- What a comment is for whose opening has this text behind it, with `mark` as its second
character: it documents if the mark is there once more, but not twice, or if there is an exclamation
mark. The marks that end a comment count here. -/
def purpose (mark : Char) : List Char → Purpose
  | [] => .none
  | c :: rest =>
    if c == '!' then .inner
    else if c == mark && rest.head? != some mark then .outer
    else .none

/-- The comment that a text begins with, and what is left. -/
def comment? : List Char → Option (Comment × List Char)
  | '/' :: '/' :: rest =>
    let (text, left) := line rest
    some (⟨purpose '/' rest, text.drop 1⟩, left)
  | '/' :: '*' :: rest => do
    let (text, left) ← block 0 rest
    some (⟨if text.isEmpty then .none else purpose '*' rest, text.drop 1⟩, left)
  | _ => none

/-- The attribute that a comment stands for, if it documents something. -/
def Comment.code (comment : Comment) : Code :=
  let text := Token.literal (Quoted.quote (String.ofList comment.text))
  let content := brackets (.ident "doc" :: operator ['='] ++ [text])
  match comment.purpose with
  | .none => []
  | .outer => operator ['#'] ++ content
  | .inner => operator ['#'] ++ operator ['!'] ++ content

/-! ### Atoms -/

/-- The characters that are punctuation. -/
def punctuation : List Char := "~!@#$%^&*-=+|;:,<.>/?".toList ++ [tick]

/-- Whether a text begins with a comment, finished or not. -/
def startsComment : List Char → Bool
  | '/' :: c :: _ => c == '/' || c == '*'
  | _ => false

/-- Whether a text begins with punctuation. -/
def startsPunct (text : List Char) : Bool :=
  text.head?.any punctuation.contains && !startsComment text

/-- The name that a text begins with, and what is left. -/
def name? (text : List Char) : Option (String × List Char) :=
  match text with
  | [] => none
  | c :: _ =>
    if startsName c then
      let (name, left) := text.span continuesName
      some (String.ofList name, left)
    else none

/-- The name that a text begins with, where a mark in front of it makes a name of a keyword. -/
def identifier? (text : List Char) : Option (String × List Char) :=
  match text with
  | 'r' :: '#' :: rest =>
    match name? rest with
    | some (name, left) => some ("r#" ++ name, left)
    | none => name? text
  | _ => name? text

/-- The bracket that a character is. -/
def bracket? (c : Char) : Option Lexeme :=
  match Delimiter.all.find? (·.opening == c), Delimiter.all.find? (·.closing == c) with
  | some delimiter, _ => some (.opening delimiter)
  | none, some delimiter => some (.closing delimiter)
  | none, none => none

/-- The literal that stands for one that could not be read. Brackets around nothing but this comment
are otherwise empty. -/
def unreadable : List Char := "(/*ERROR*/)".toList

/-- The literal that a text begins with, and what is left. -/
def literal? (text : List Char) : Option (List Char × List Char) :=
  if unreadable.isPrefixOf text then some (unreadable, text.drop unreadable.length)
  else Literal.split? text

/-- The lexeme that the text `c :: rest` begins with, if it does not begin with a blank or comment,
and what is left. -/
def lexeme? (c : Char) (rest : List Char) : Option (Lexeme × List Char) :=
  match literal? (c :: rest), bracket? c, identifier? (c :: rest) with
  | some (text, left), _, _ => some (.atom (.literal (String.ofList text)), left)
  | none, some bracket, _ => some (bracket, rest)
  | none, none, some (name, left) => some (.atom (.ident name), left)
  | none, none, none =>
    if startsPunct (c :: rest) then some (.atom (.punct c (c == tick || startsPunct rest)), rest)
    else none

/-- The lexemes of a text. The fuel bounds their number, blanks and comments included. -/
def scan : Nat → List Char → Option (List Lexeme)
  | _, [] => some []
  | 0, _ :: _ => none
  | fuel + 1, c :: rest =>
    if isBlank c then scan fuel rest
    else
      match comment? (c :: rest) with
      | some (comment, left) => do return comment.code.map .atom ++ (← scan fuel left)
      | none => do
        let (lexeme, left) ← lexeme? c rest
        return lexeme :: (← scan fuel left)

/-! ### Brackets -/

/-- The groups that are open, the innermost first, each with its tokens so far in reverse, and the
tokens in front of them all. -/
abbrev Stack := List (Delimiter × List Token) × List Token

/-- Put a token into the innermost group. -/
def push (token : Token) : Stack → Stack
  | ([], outside) => ([], token :: outside)
  | ((delimiter, inside) :: groups, outside) => ((delimiter, token :: inside) :: groups, outside)

/-- Match the brackets of the lexemes. -/
def nest : List Lexeme → Stack → Option Code
  | [], ([], outside) => some outside.reverse
  | [], (_ :: _, _) => none
  | .atom token :: rest, stack => nest rest (push token stack)
  | .opening delimiter :: rest, (groups, outside) => nest rest ((delimiter, []) :: groups, outside)
  | .closing _ :: _, ([], _) => none
  | .closing delimiter :: rest, ((opened, inside) :: groups, outside) =>
    if delimiter = opened then nest rest (push (.group opened inside.reverse) (groups, outside))
    else none

end Lexer

/-- The code that a text stands for, if it is one. -/
def Code.ofText? (text : String) : Option Code := do
  let lexemes ← Lexer.scan text.length text.toList
  Lexer.nest lexemes ([], [])

/-- The code that a well formed text stands for. -/
def snippet (text : String) : Code := (Code.ofText? text).getD []

end WireForm.Derivation
