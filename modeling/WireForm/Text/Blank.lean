import WireForm.Text.Ranges

/-!
# Blank characters

The blanks are the characters with the Unicode property `White_Space`, and the two marks that only
turn the direction of writing.

## Main definitions

* `Blank.ranges` — the characters with the property
* `isBlank` — the blanks
-/

namespace WireForm

/-- The characters with the property `White_Space`. -/
def Blank.ranges : Ranges :=
  [(0x9, 0xd), (0x20, 0x20), (0x85, 0x85), (0xa0, 0xa0), (0x1680, 0x1680), (0x2000, 0x200a),
    (0x2028, 0x2029), (0x202f, 0x202f), (0x205f, 0x205f), (0x3000, 0x3000)]

/-- The marks that turn the direction of writing. -/
def Blank.directions : List Char := ['\u200e', '\u200f']

/-- Whether a character only keeps others apart. -/
def isBlank (c : Char) : Bool := Blank.directions.contains c || Blank.ranges.contains c

end WireForm
