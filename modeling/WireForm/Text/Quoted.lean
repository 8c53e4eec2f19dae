import WireForm.Text.Extending
import WireForm.Text.Unassigned

/-!
# Text in quotes

A text is written between quotes such that it can be read from the page. A quote or backslash
inside has a backslash in front of it, line ends and tabs are written with letters, and a character
that shows nothing of its own is written with its number: one that extends its neighbour, one that
formats or controls, a blank other than the space, one of private use, or one that is not assigned.

## Main definitions

* `Unseen.ranges` — the characters that show nothing
* `Quoted.escape` — how a character is written
* `Quoted.quote` — a text in quotes
-/

namespace WireForm

/-- The characters of control, format, separation and private use, without the space. -/
def Unseen.ranges : Ranges :=
  [(0x0, 0x1f), (0x7f, 0xa0), (0xad, 0xad), (0x600, 0x605), (0x61c, 0x61c), (0x6dd, 0x6dd),
    (0x70f, 0x70f), (0x890, 0x891), (0x8e2, 0x8e2), (0x1680, 0x1680), (0x180e, 0x180e),
    (0x2000, 0x200f), (0x2028, 0x202f), (0x205f, 0x2064), (0x2066, 0x206f), (0x3000, 0x3000),
    (0xe000, 0xf8ff), (0xfeff, 0xfeff), (0xfff9, 0xfffb), (0x110bd, 0x110bd), (0x110cd, 0x110cd),
    (0x13430, 0x1343f), (0x1bca0, 0x1bca3), (0x1d173, 0x1d17a), (0xe0001, 0xe0001),
    (0xe0020, 0xe007f), (0xf0000, 0xffffd), (0x100000, 0x10fffd)]

/-- Whether a character shows nothing. -/
def isUnseen (c : Char) : Bool := Unseen.ranges.contains c

namespace Quoted

/-- The mark around the text. -/
def mark : Char := '\x22'

/-- The mark that hides the character behind it. -/
def backslash : Char := '\x5c'

/-- A character written with its number. -/
def numbered (c : Char) : List Char :=
  backslash :: 'u' :: '\x7b' :: (Nat.toDigits 16 c.toNat ++ ['\x7d'])

/-- How a character is written, given the one that follows it. A null character is not written with
one digit where the next character would be read as another digit of it. -/
def escape (c : Char) (next : Option Char) : List Char :=
  if c == '\x00' then
    if next.any fun d => '0' ≤ d && d ≤ '7' then [backslash, 'x', '0', '0'] else [backslash, '0']
  else if c == '\t' then [backslash, 't']
  else if c == '\r' then [backslash, 'r']
  else if c == '\n' then [backslash, 'n']
  else if c == mark || c == backslash then [backslash, c]
  else if isExtending c || isUnseen c || isUnassigned c then numbered c
  else [c]

/-- How the characters of a text are written. -/
def escapeAll : List Char → List Char
  | [] => []
  | c :: rest => escape c rest.head? ++ escapeAll rest

/-- A text in quotes. -/
def quote (text : String) : String :=
  String.ofList (mark :: (escapeAll text.toList ++ [mark]))

end Quoted

end WireForm
