import WireForm.Text.Blank

/-!
# Literals

A literal is one token: a number, or text in quotes. Letters right behind it are its suffix. A
number with a point or an exponent is no integer; a point belongs to a number unless another point
or a name comes behind it. Text in raw quotes ends only at a quote with as many hash marks as there
are in front of it, and every other kind of quoted text at the next quote that no backslash hides.

## Main definitions

* `Literal.split?` — the literal that a text begins with
* `LiteralKind`, `Literal.kind?` — what a literal is
* `Literal.integer?` — the value and the suffix of an integer
-/

namespace WireForm.Derivation

/-- Whether names can begin with this character. Whether a letter outside of ASCII can is not
looked at. -/
def startsName (c : Char) : Bool := c.isAlpha || c == '_' || (128 ≤ c.toNat && !isBlank c)

/-- Whether names can go on with this character. -/
def continuesName (c : Char) : Bool := startsName c || c.isDigit

namespace Literal

/-- A text cut in two: what was wanted of it, and what is left. -/
abbrev Cut := List Char × List Char

/-- The mark of strings. -/
def quote : Char := '\x22'

/-- The mark of characters. -/
def apostrophe : Char := '\x27'

/-- The mark that hides the character behind it. -/
def escape : Char := '\x5c'

/-- Put characters in front of the part that was wanted. -/
def Cut.after (front : List Char) (cut : Cut) : Cut := (front ++ cut.1, cut.2)

/-- Add the name behind a literal, if there is one, to it. -/
def withSuffix (cut : Cut) : Cut :=
  if cut.2.head?.any startsName then Cut.after cut.1 (cut.2.span continuesName) else cut

/-! ### Numbers -/

/-- Whether a character stands in a decimal number. -/
def isDecimal (c : Char) : Bool := c.isDigit || c == '_'

/-- Whether a character is the mark of an exponent. -/
def isExponentMark (c : Char) : Bool := c == 'e' || c == 'E'

/-- Whether a character is a sign. -/
def isSign (c : Char) : Bool := c == '+' || c == '-'

/-- The exponent that a text begins with: the mark, a sign or none, and at least one digit. -/
def exponent? (text : List Char) : Option Cut :=
  match text with
  | [] => none
  | mark :: rest =>
    if !isExponentMark mark then none
    else
      let (gap, rest) := rest.span (· == '_')
      let (sign, rest) :=
        if rest.head?.any isSign then (rest.take 1, rest.drop 1) else ([], rest)
      let (digits, rest) := rest.span isDecimal
      if digits.any Char.isDigit then some (mark :: (gap ++ sign ++ digits), rest) else none

/-- The number with a point or an exponent that a text begins with, without a suffix. -/
def fractional? (text : List Char) : Option Cut :=
  let (whole, rest) := text.span isDecimal
  match rest with
  | '.' :: rest =>
    if rest.head?.any fun c => c == '.' || startsName c then none
    else
      let (fraction, rest) := rest.span isDecimal
      let cut := (exponent? rest).getD ([], rest)
      some (cut.after (whole ++ '.' :: fraction))
  | rest => (exponent? rest).map (Cut.after whole)

/-- The number that a text begins with, if it begins with a digit. -/
def number (text : List Char) : Cut :=
  match fractional? text with
  | some cut => withSuffix cut
  | none => text.span continuesName

/-! ### Quoted text -/

/-- Everything up to the next bare `mark` and the mark itself, then what is left. The flag says that
the first character is hidden by a backslash. -/
def upTo (mark : Char) : Bool → List Char → Option Cut
  | _, [] => none
  | hidden, c :: rest =>
    if c == mark && !hidden then some ([c], rest)
    else (upTo mark (c == escape && !hidden) rest).map (Cut.after [c])

/-- Everything up to the next quote with these hash marks behind it. -/
def upToRaw (hashes : List Char) : List Char → Option Cut
  | [] => none
  | c :: rest =>
    if c == quote && hashes.isPrefixOf rest then some (c :: hashes, rest.drop hashes.length)
    else (upToRaw hashes rest).map (Cut.after [c])

/-- What follows the `r` of raw text. -/
def raw? (text : List Char) : Option Cut :=
  match text.span (· == '#') with
  | (hashes, c :: rest) =>
    if c == quote then (upToRaw hashes rest).map (Cut.after (hashes ++ [c])) else none
  | _ => none

/-- What follows the mark of a single character. -/
def character? (text : List Char) : Option Cut :=
  match text with
  | c :: rest =>
    if c == escape then upTo apostrophe false text
    else if rest.head? == some apostrophe then some ([c, apostrophe], rest.drop 1)
    else none
  | [] => none

/-- What follows the letters that tell of which kind a quoted text is: a string or, with an `r` in
front, a raw one. -/
def string? (text : List Char) : Option Cut :=
  match text with
  | c :: rest =>
    if c == quote then (upTo quote false rest).map (Cut.after [c])
    else if c == 'r' then (raw? rest).map (Cut.after [c])
    else none
  | [] => none

/-- The quoted text that a text begins with, without a suffix. -/
def quoted? (text : List Char) : Option Cut :=
  match text with
  | 'b' :: c :: rest =>
    if c == apostrophe then (character? rest).map (Cut.after ['b', c])
    else (string? (c :: rest)).map (Cut.after ['b'])
  | 'c' :: rest => (string? rest).map (Cut.after ['c'])
  | c :: rest =>
    if c == apostrophe then (character? rest).map (Cut.after [c]) else string? text
  | [] => none

/-- The literal that a text begins with. -/
def split? (text : List Char) : Option Cut :=
  match quoted? text with
  | some cut => some (withSuffix cut)
  | none => if text.head?.any Char.isDigit then some (number text) else none

end Literal

/-! ### What a literal is -/

/-- The kinds of literals. -/
inductive LiteralKind where
  | string
  | bytes
  | character
  | number
  deriving DecidableEq, Repr

namespace Literal

/-- The kind of a literal, which its first character tells. -/
def kind? (text : String) : Option LiteralKind :=
  match text.toList with
  | [] => none
  | c :: _ =>
    if c == quote || c == 'r' then some .string
    else if c == 'b' then some .bytes
    else if c == apostrophe then some .character
    else if c.isDigit then some .number
    else none

/-- The value of a digit below this base. -/
def digit? (base : Nat) (c : Char) : Option Nat :=
  let value :=
    if c.isDigit then c.toNat - '0'.toNat
    else if 'a' ≤ c && c ≤ 'f' then c.toNat - 'a'.toNat + 10
    else if 'A' ≤ c && c ≤ 'F' then c.toNat - 'A'.toNat + 10
    else base
  if value < base then some value else none

/-- The value of the digits that a text begins with, and the suffix behind them. Underscores between
digits have no meaning. -/
def digits (base : Nat) : Nat → List Char → Nat × List Char
  | value, [] => (value, [])
  | value, c :: rest =>
    if c == '_' then digits base value rest
    else
      match digit? base c with
      | some d => digits base (value * base + d) rest
      | none => (value, c :: rest)

/-- The base of a number, and the part of it behind the mark of the base. -/
def base : List Char → Nat × List Char
  | '0' :: 'x' :: rest => (16, rest)
  | '0' :: 'o' :: rest => (8, rest)
  | '0' :: 'b' :: rest => (2, rest)
  | text => (10, text)

/-- The value and the suffix of an integer. A decimal number with a point or an exponent is none. -/
def integer? (text : String) : Option (Nat × String) :=
  let (base, body) := base text.toList
  if !text.toList.head?.any Char.isDigit || (base == 10 && (fractional? body).isSome) then none
  else
    let (value, suffix) := digits base 0 body
    some (value, String.ofList suffix)

end Literal

end WireForm.Derivation
