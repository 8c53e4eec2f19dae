import WireForm.Error
import WireForm.Sync.Gate

/-!
# One-shot results

A cell holds a result that is shared between one provider and any number of consumers. The provider
may set provisional values and settles the result once, by a final value or by cancelling; consumers
can wait for it, look at the value or take it, and cancel as well.

A cell is two gates. The first guards the value and the state, and opens when the result is final;
the second opens as soon as anything was decided at all. That they agree with the state is for
theorems to say.

## Main definitions

* `State`, `Slot`, `Cell` — the life of a result, the value with its state, and the two gates
* `Cell.provide`, `Cell.update`, `Cell.produce`, `Cell.cancel`, `Cell.cancelAfter` — settling
* `Cell.get`, `Cell.take`, `Cell.takeFinal`, `Cell.wait`, `Cell.waitFinal` — consuming
* `Unavailable` — why there is no final value
-/

namespace WireForm.Sync

/-- The life of a result. -/
inductive State where
  /-- Nothing was provided yet. -/
  | undecided
  /-- There was a provisional value, which can still be replaced or cancelled. -/
  | partiallyProvided
  /-- The final value was provided. -/
  | provided
  /-- The result was cancelled. -/
  | cancelled
  deriving DecidableEq, Repr

/-- Whether a state is the last. -/
def State.isFinal : State → Bool
  | .provided | .cancelled => true
  | .undecided | .partiallyProvided => false

/-- The name of a state. -/
def State.name : State → String
  | .undecided => "Undecided"
  | .partiallyProvided => "PartiallyProvided"
  | .provided => "Provided"
  | .cancelled => "Cancelled"

/-- How a handle on a result in this state is shown, given what the handle is called. -/
def State.describe (s : State) (handle : String) : String :=
  handle ++ " \x7b state: " ++ s.name ++ " \x7d"

/-- Why there is no final value. -/
inductive Unavailable where
  | cancelled
  | taken
  deriving DecidableEq, Repr

/-- The wording of the reason. -/
def Unavailable.message : Unavailable → String
  | .cancelled => "result was cancelled"
  | .taken => "result was already taken"

/-- What a producing callback comes to. -/
inductive Produced (α : Type) where
  /-- A value. -/
  | value (a : α)
  /-- No value, which is no failure. -/
  | nothing
  /-- A failure, in words. -/
  | failed (reason : String)
  /-- A crash. -/
  | crashed
  deriving DecidableEq, Repr

/-- A value and the state it is in. -/
structure Slot (α : Type) where
  /-- The present value. -/
  value : Option α
  /-- The state of the result. -/
  state : State
  deriving DecidableEq, Repr

/-- The slot of a cancelled result. A provisional value is thrown away. -/
def Slot.cancelled {α : Type} : Slot α := ⟨none, .cancelled⟩

/-- A slot after a producing callback that was meant to give the final value, or a provisional
one. -/
def Slot.after {α : Type} (s : Slot α) (produced : Produced α) (isFinal : Bool) : Slot α :=
  match produced with
  | .value a => ⟨some a, if isFinal then .provided else .partiallyProvided⟩
  | .nothing => s
  | .failed _ | .crashed => .cancelled

/-- A result shared between a provider and its consumers. -/
structure Cell (α : Type) where
  /-- The value and its state; open when the result is final. -/
  slot : Gate (Slot α)
  /-- Open when anything was decided. -/
  decided : Gate Unit
  deriving DecidableEq, Repr

namespace Cell

variable {α : Type}

/-- A result of which nothing is known. -/
def fresh : Cell α := ⟨.closed ⟨none, .undecided⟩, .closed ()⟩

/-- The state of the result. -/
def state (c : Cell α) : State := (c.slot.critical fun _ s => (s.state, s)).1

/-- The cell after something was decided. -/
def decide (c : Cell α) : Cell α := { c with decided := c.decided.release.2 }

/-! ### Providing -/

/-- Run a producing callback, unless the result is final. Gives the state afterwards, and whether
the callback ran. -/
def produce (produced : Produced α) (isFinal : Bool) (c : Cell α) : (State × Bool) × Cell α :=
  let ((note, _), slot) := c.slot.maybeOpen fun s =>
    let s' := s.after produced isFinal
    (s'.state, s'.state.isFinal, s')
  let c' := { c with slot := slot }
  let state := note.getD c'.state
  ((state, note.isSome), if state = .undecided then c' else c'.decide)

/-- Settle the result with a final value. Gives the value back when the result is final already. -/
def provide (a : α) (c : Cell α) : Option α × Cell α :=
  let ((note, _), slot) := c.slot.maybeOpen fun _ => ((), true, ⟨some a, .provided⟩)
  let c' := { c with slot := slot }
  match note with
  | none => (some a, c')
  | some () => (none, c'.decide)

/-- Set a provisional value in place of any other, unless the result is final. -/
def update (a : α) (c : Cell α) : Bool × Cell α :=
  let (updated, slot) := c.slot.critical fun isOpen s =>
    if isOpen then (false, s) else (true, ⟨some a, .partiallyProvided⟩)
  let c' := { c with slot := slot }
  (updated, if updated then c'.decide else c')

/-- Cancel the result, unless it is final. -/
def cancel (c : Cell α) : Bool × Cell α :=
  let ((note, _), slot) := c.slot.maybeOpen fun _ => ((), true, .cancelled)
  let c' := { c with slot := slot }
  (note.isSome, if note.isSome then c'.decide else c')

/-- Wait for the result to be final, and cancel it when it is not. Gives whether it became final by
itself; none if the call waits for ever. -/
def cancelAfter (p : Patience) (c : Cell α) : Option (Bool × Cell α) :=
  (c.slot.openAfter p fun _ => ((), .cancelled)).map fun ((inTime, _), slot) =>
    (inTime, decide { c with slot := slot })

/-! ### Consuming -/

/-- Whether anything was decided once a call has waited for it; none if the call waits for ever. -/
def wait (p : Patience) (c : Cell α) : Option Bool := c.decided.wait p

/-- Whether the result is final once a call has waited for it; none if the call waits for ever. -/
def waitFinal (p : Patience) (c : Cell α) : Option Bool := c.slot.wait p

/-- The present value, provisional or final. -/
def get (c : Cell α) : Option α := (c.slot.critical fun _ s => (s.value, s)).1

/-- Take the present value out, provisional or final. -/
def take (c : Cell α) : Option α × Cell α :=
  let (a, slot) := c.slot.critical fun _ s => (s.value, { s with value := none })
  (a, { c with slot := slot })

/-- Take the value out if it is final. -/
def takeFinal (c : Cell α) : Option α × Cell α :=
  let (a, slot) := c.slot.critical fun isOpen s =>
    if isOpen then (s.value, { s with value := none }) else (none, s)
  (a, { c with slot := slot })

end Cell

end WireForm.Sync
