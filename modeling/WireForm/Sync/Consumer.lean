import WireForm.Sync.OneShot

/-!
# Consumers and their transforms

A consumer reads a result as it is or through a chain of transforms, each applied to what comes out
of the chain before it. A transform is applied when a value is retrieved and never before. A link of
the chain either lets values through that are only looked at, or only such as are taken; through the
latter, looking at a value shows none.

A transform can crash. A value that was being taken is gone then. Which transforms were called, and
in which order, is part of every retrieval.

The calls that touch no value have no use for the transforms: each link of a chain hands them on to
what is below it, down to the result.

## Main definitions

* `Transform`, `Chain` — a transform with a label, and a chain of them
* `Control`, `Chain.control` — the calls that touch no value, and these calls through a chain
* `Retrieval` — what a retrieval gives: the value, the calls and the cell
* `Chain.get`, `Chain.take`, `Chain.takeFinal` — retrievals through a chain
* `Chain.getOrCancel`, `Chain.getOrCancelAfter`, `Chain.takeOrCancelAfter` — settling, then
  retrieving, then explaining a missing value
-/

namespace WireForm.Sync

/-- A function applied to retrieved values, with a label by which its calls are known. -/
structure Transform (β γ : Type) where
  /-- The label of its calls. -/
  label : Nat
  /-- The function, which may crash. -/
  apply : β → Outcome γ

/-- The transforms between a result of type `α` and a consumer of type `β`. -/
inductive Chain (α : Type) : Type → Type 1 where
  /-- No transform. -/
  | direct : Chain α α
  /-- A transform of values that are looked at or taken. -/
  | map {β γ : Type} (base : Chain α β) (f : Transform β γ) : Chain α γ
  /-- A transform of values that are taken. -/
  | mapOwned {β γ : Type} (base : Chain α β) (f : Transform β γ) : Chain α γ

/-- The calls on a result that do not touch its value. -/
structure Control (α : Type) where
  /-- The state of the result. -/
  state : Cell α → State
  /-- Wait for anything to be decided. -/
  wait : Cell α → Option Bool
  /-- The same, for so long. -/
  waitFor : Patience → Cell α → Option Bool
  /-- Wait for the result to be final. -/
  waitFinal : Cell α → Option Bool
  /-- The same, for so long. -/
  waitFinalFor : Patience → Cell α → Option Bool
  /-- Cancel the result. -/
  cancel : Cell α → Bool × Cell α
  /-- Wait for the result, and cancel it when it is not final. -/
  cancelAfter : Patience → Cell α → Option (Bool × Cell α)

namespace Control

variable {α : Type}

/-- The calls on the result itself. -/
def direct : Control α where
  state := Cell.state
  wait := Cell.wait .unbounded
  waitFor := Cell.wait
  waitFinal := Cell.waitFinal .unbounded
  waitFinalFor := Cell.waitFinal
  cancel := Cell.cancel
  cancelAfter := Cell.cancelAfter

/-- The calls on a link of a chain, handed on to those below it. -/
def forward (base : Control α) : Control α where
  state c := base.state c
  wait c := base.wait c
  waitFor p c := base.waitFor p c
  waitFinal c := base.waitFinal c
  waitFinalFor p c := base.waitFinalFor p c
  cancel c := base.cancel c
  cancelAfter p c := base.cancelAfter p c

end Control

/-- What a retrieval gives. -/
structure Retrieval (α β : Type) where
  /-- The value, if there is one and no transform crashed on it. -/
  value : Outcome (Option β)
  /-- The labels of the transforms called, in order. -/
  calls : List Nat
  /-- The cell afterwards. -/
  cell : Cell α

namespace Retrieval

variable {α β γ : Type}

/-- Apply a transform to a retrieved value, if there is one. -/
def transform (r : Retrieval α β) (f : Transform β γ) : Retrieval α γ :=
  match r.value with
  | .ok (some b) => ⟨(f.apply b).map some, r.calls ++ [f.label], r.cell⟩
  | .ok none => ⟨.ok none, r.calls, r.cell⟩
  | .error fault => ⟨.error fault, r.calls, r.cell⟩

/-- A retrieved value, or why there is none, once the result is final. -/
def settled (r : Retrieval α β) (control : Control α) : Outcome (Except Unavailable β) :=
  r.value.map fun
    | some b => .ok b
    | none => if control.state r.cell = .cancelled then .error .cancelled else .error .taken

end Retrieval

namespace Chain

variable {α β : Type}

/-- The calls that touch no value, through a chain. -/
def control {β : Type} : Chain α β → Control α
  | .direct => .direct
  | .map base _ => base.control.forward
  | .mapOwned base _ => base.control.forward

/-- Look at the present value. -/
def get {β : Type} : Chain α β → Cell α → Retrieval α β
  | .direct, c => ⟨.ok c.get, [], c⟩
  | .map base f, c => (base.get c).transform f
  | .mapOwned _ _, c => ⟨.ok none, [], c⟩

/-- Take the present value. -/
def take {β : Type} : Chain α β → Cell α → Retrieval α β
  | .direct, c => let (a, c') := c.take; ⟨.ok a, [], c'⟩
  | .map base f, c => (base.take c).transform f
  | .mapOwned base f, c => (base.take c).transform f

/-- Take the value if it is final. -/
def takeFinal {β : Type} : Chain α β → Cell α → Retrieval α β
  | .direct, c => let (a, c') := c.takeFinal; ⟨.ok a, [], c'⟩
  | .map base f, c => (base.takeFinal c).transform f
  | .mapOwned base f, c => (base.takeFinal c).transform f

/-- Cancel a result that is not final, and look at the value. -/
def getOrCancel (ch : Chain α β) (c : Cell α) : Retrieval α β := ch.get (ch.control.cancel c).2

/-- Wait for the result, cancel it when it is not final, and look at the value; none if the call
waits for ever. -/
def getOrCancelAfter (ch : Chain α β) (p : Patience) (c : Cell α) : Option (Retrieval α β) :=
  (ch.control.cancelAfter p c).map fun (_, c') => ch.get c'

/-- Wait for the result, cancel it when it is not final, and take the value; none if the call waits
for ever. -/
def takeOrCancelAfter (ch : Chain α β) (p : Patience) (c : Cell α) : Option (Retrieval α β) :=
  (ch.control.cancelAfter p c).map fun (_, c') => ch.takeFinal c'

end Chain

end WireForm.Sync
