/-!
# Gates

A gate is a flag that can be opened once and never closed again, together with a payload. Callbacks
run under the gate's lock, so they can look at the payload, change it, and decide whether to open
the gate, all at once.

The calls of a program are modelled one after the other. A call that waits does so while nothing
else runs, so it ends when the gate is open already, when its patience ends, or not at all; the last
is the answer `none`.

A callback gives, beside the new payload, a note that the caller gets back when the callback ran.

## Main definitions

* `Gate`, `Gate.closed` — a flag and its payload
* `Gate.release` — open the gate
* `Gate.maybeOpenOr`, `Gate.maybeOpen`, `Gate.critical` — callbacks under the lock
* `Patience`, `Gate.wait`, `Gate.openAfter` — waiting
-/

namespace WireForm.Sync

/-- How long a call waits. -/
inductive Patience where
  /-- Until some moment. -/
  | bounded
  /-- For ever, or past every moment that a clock can show. -/
  | unbounded
  deriving DecidableEq, Repr

/-- A flag and its payload. -/
structure Gate (α : Type) where
  /-- Whether the gate is open. -/
  isOpen : Bool
  /-- The payload. -/
  value : α
  deriving DecidableEq, Repr

namespace Gate

variable {α β : Type}

/-- A closed gate. -/
def closed (value : α) : Gate α := ⟨false, value⟩

/-- Open the gate, and say whether this call did. -/
def release (g : Gate α) : Bool × Gate α := (!g.isOpen, { g with isOpen := true })

/-- Run `decide` on the payload of a closed gate, which opens when it says so, or `alreadyOpen` on
that of an open one. Gives the note of the callback that ran, and whether the gate is open
afterwards. -/
def maybeOpenOr (decide : α → β × Bool × α) (alreadyOpen : α → β × α) (g : Gate α) :
    (β × Bool) × Gate α :=
  if g.isOpen then
    let (note, value) := alreadyOpen g.value
    ((note, true), { g with value := value })
  else
    let (note, opens, value) := decide g.value
    ((note, opens), ⟨opens, value⟩)

/-- Run `decide` on the payload of a closed gate, which opens when it says so. Gives its note if it
ran, and whether the gate is open afterwards. -/
def maybeOpen (decide : α → β × Bool × α) (g : Gate α) : (Option β × Bool) × Gate α :=
  g.maybeOpenOr
    (fun value => let (note, opens, value) := decide value; (some note, opens, value))
    (fun value => (none, value))

/-- Run `f` on the payload, telling it whether the gate is open. -/
def critical (f : Bool → α → β × α) (g : Gate α) : β × Gate α :=
  let (result, value) := f g.isOpen g.value
  (result, { g with value := value })

/-- Whether the gate is open once a call has waited for it; none if the call waits for ever. -/
def wait (p : Patience) (g : Gate α) : Option Bool :=
  if g.isOpen then some true
  else match p with
    | .bounded => some false
    | .unbounded => none

/-- Wait for the gate to open, and force it open, running `onForce` on its payload, when it does
not. Gives whether it opened by itself, and the note of `onForce` if that ran; none if the call
waits for ever. -/
def openAfter (p : Patience) (onForce : α → β × α) (g : Gate α) :
    Option ((Bool × Option β) × Gate α) :=
  (g.wait p).map fun inTime =>
    if inTime then ((true, none), g)
    else
      let (note, value) := onForce g.value
      ((false, some note), ⟨true, value⟩)

end Gate

end WireForm.Sync
