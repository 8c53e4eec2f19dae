/-!
# Why an encoding or a decoding fails

A byte string that is not the encoding of a value is refused with an `Error`: one constructor per
check, carrying the numbers which that check compared. `Error.message` is the only place that
words them.

An operation can also end without any answer, by indexing outside a list or by leaving the range
of a machine word. That ending is `Fault.crash`, kept apart from every refusal, so that "never
crashes" is a statement about these definitions and not an assumption behind them.

## Main definitions

* `Bytes` — byte strings
* `Utf8Fault` — where and how a byte string stops being UTF-8
* `Error`, `Error.message` — the refusals and their wording
* `Fault`, `Outcome` — a refusal or a crash; a value or a fault
-/

namespace WireForm

/-- A byte string. -/
abbrev Bytes := List UInt8

/-- How a byte string fails to be UTF-8. `index` counts the bytes before the fault, all valid. -/
inductive Utf8Fault where
  /-- The `length` bytes at `index` begin no character, whatever follows them. -/
  | invalid (length index : Nat)
  /-- The text ends inside the character that begins at `index`. -/
  | incomplete (index : Nat)
  deriving DecidableEq, Repr

/-- The wording of a UTF-8 fault. -/
def Utf8Fault.message : Utf8Fault → String
  | .invalid length index => s!"invalid utf-8 sequence of {length} bytes from index {index}"
  | .incomplete index => s!"incomplete utf-8 byte sequence from index {index}"

/-- The length computations that can leave the range of a machine word. -/
inductive LengthOverflow where
  /-- A length read from the input is no length on this machine. -/
  | recordedLength
  /-- The header of a dynamic record would be longer than any buffer. -/
  | headerLength
  /-- The lengths in the header of a dynamic record add up to more than any buffer. -/
  | fieldLengths
  deriving DecidableEq, Repr

/-- The wording of a length overflow. -/
def LengthOverflow.message : LengthOverflow → String
  | .recordedLength => "length prefix does not fit in usize"
  | .headerLength => "dynamic header length overflows usize"
  | .fieldLengths => "dynamic field lengths overflow usize"

/-- The reasons for which encoding or decoding is refused. -/
inductive Error where
  /-- A value of a fixed size was decoded from a byte string of another length. -/
  | invalidLength (expected actual : Nat)
  /-- More bytes were asked for than a buffer has. -/
  | bufferOverrun (offset len available : Nat)
  /-- A buffer's length disagrees with the total size of the fields it holds. -/
  | sizeMismatch (expected actual : Nat)
  /-- A length computation left the range of a machine word. -/
  | sizeOverflow (cause : LengthOverflow)
  /-- A field is too long for the width its length is recorded in. -/
  | lengthTooLarge (len max : Nat)
  /-- An encoded integer stands for no value of the type. -/
  | invalidDiscriminant (typeName : String) (value : Int)
  /-- A text was decoded from bytes that are not UTF-8. -/
  | invalidUtf8 (fault : Utf8Fault)
  /-- A run of elements of one size has bytes left over. -/
  | misaligned (elementSize len : Nat)
  /-- Any other inconsistency, in words. -/
  | malformed (reason : String)
  deriving DecidableEq, Repr

/-- The wording of a refusal. -/
def Error.message : Error → String
  | .invalidLength expected actual => s!"invalid length: expected {expected} bytes, got {actual}"
  | .bufferOverrun offset len available =>
    s!"buffer overrun: {len} bytes requested at offset {offset}, but only {available} available"
  | .sizeMismatch expected actual => s!"size mismatch: expected {expected} bytes, got {actual}"
  | .sizeOverflow cause => "size overflow: " ++ cause.message
  | .lengthTooLarge len max =>
    s!"field of {len} bytes does not fit a length prefix with maximum {max}"
  | .invalidDiscriminant typeName value => s!"invalid discriminant {value} for `{typeName}`"
  | .invalidUtf8 fault => "invalid UTF-8: " ++ fault.message
  | .misaligned elementSize len =>
    s!"buffer of {len} bytes is not a multiple of element size {elementSize}"
  | .malformed reason => "malformed input: " ++ reason

/-- How an operation ends when it gives no value. -/
inductive Fault where
  /-- The input was refused. -/
  | refused (error : Error)
  /-- The operation stopped without an answer. -/
  | crash
  deriving DecidableEq, Repr

/-- A value, or the fault that took its place. -/
abbrev Outcome := Except Fault

/-- Refuse with `error`. -/
def refuse {α : Type} (error : Error) : Outcome α := .error (.refused error)

/-- Stop without an answer. -/
def crash {α : Type} : Outcome α := .error .crash

end WireForm
