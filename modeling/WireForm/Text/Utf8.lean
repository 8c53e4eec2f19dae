import WireForm.Codec

/-!
# Text as UTF-8

A text is encoded as its UTF-8 bytes and nothing else; whatever contains it knows where it ends.
Bytes that are not UTF-8 are refused with the place of the first fault: how many valid bytes come
before it, and how many bytes from there begin no character whatever follows — or that the input
ends inside a character that was valid so far.

The bounds on the second byte of a character are those of the Unicode standard's table of
well-formed byte sequences: they exclude overlong forms, surrogates and numbers above `10FFFF`.

## Main definitions

* `Utf8.continuation?` — the number of bytes after a leading byte, and the range of the first
* `Utf8.fault` — the first fault
* `Utf8.encode`, `Utf8.decode` — between strings and bytes
* `textCodec` — the codec of strings
-/

namespace WireForm

namespace Utf8

/-- For a byte that leads a character of several bytes: how many follow it, and the range of the
first of them. -/
def continuation? (lead : UInt8) : Option (Nat × UInt8 × UInt8) :=
  if lead < 0xc2 then none
  else if lead < 0xe0 then some (1, 0x80, 0xbf)
  else if lead = 0xe0 then some (2, 0xa0, 0xbf)
  else if lead = 0xed then some (2, 0x80, 0x9f)
  else if lead < 0xf0 then some (2, 0x80, 0xbf)
  else if lead = 0xf0 then some (3, 0x90, 0xbf)
  else if lead < 0xf4 then some (3, 0x80, 0xbf)
  else if lead = 0xf4 then some (3, 0x80, 0x8f)
  else none

/-- What a scan of a byte string is in the middle of. -/
inductive Progress where
  /-- Between two characters. -/
  | between
  /-- Inside a character: `seen` of its bytes were read, at least `missing + 1` are to come, and
  the next has to lie from `low` to `high`. -/
  | inside (seen missing : Nat) (low high : UInt8)
  deriving Repr

/-- The first fault of a byte string, of which `index` valid bytes came before the present
character. Bytes without a fault run out where a character could begin. -/
def faultFrom (index : Nat) : Progress → Bytes → Utf8Fault
  | _, [] => .incomplete index
  | .between, byte :: rest =>
    if byte < 0x80 then faultFrom (index + 1) .between rest
    else match continuation? byte with
      | none => .invalid 1 index
      | some (count, low, high) => faultFrom index (.inside 1 (count - 1) low high) rest
  | .inside seen missing low high, byte :: rest =>
    if byte < low ∨ high < byte then .invalid seen index
    else match missing with
      | 0 => faultFrom (index + seen + 1) .between rest
      | missing + 1 => faultFrom index (.inside (seen + 1) missing 0x80 0xbf) rest

/-- The first place where `bytes` stop being UTF-8. -/
def fault (bytes : Bytes) : Utf8Fault := faultFrom 0 .between bytes

example : fault [0x61, 0xff] = .invalid 1 1 := by decide
example : fault [0xe2, 0x82] = .incomplete 0 := by decide
example : fault [0xe2, 0x82, 0x28] = .invalid 2 0 := by decide
example : fault [0xed, 0xa0, 0x80] = .invalid 1 0 := by decide
example : fault [0x61, 0xf0, 0x9f, 0x98] = .incomplete 1 := by decide

/-- The bytes of a string. -/
def encode (s : String) : Bytes := s.toByteArray.data.toList

/-- The string with these bytes. -/
def decode (bytes : Bytes) : Outcome String :=
  match String.fromUTF8? ⟨bytes.toArray⟩ with
  | some s => .ok s
  | none => refuse (.invalidUtf8 (fault bytes))

end Utf8

/-- The codec of strings: their UTF-8 bytes. -/
def textCodec : Codec String where
  size? := none
  append s := fun out => (.ok (), out ++ Utf8.encode s)
  decode := Utf8.decode

end WireForm
