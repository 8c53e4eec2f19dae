import WireForm.Error

/-!
# Steps which keep what they did

A `Step σ α` runs on a state and gives an outcome together with the state afterwards, also when
it fails: a writer that fails half way has written the first half, a reader whose field cannot be
decoded has still moved past it. This is a state monad below a failure monad, written out, since
which of the two comes first is what the laws about partial results are about.

## Main definitions

* `Step` — a computation over a state that survives failure, with its monad structure
* `Step.lift` — an outcome, with the state left alone
-/

namespace WireForm

/-- A computation on a state `σ`. The state after it is known also when it fails. -/
def Step (σ α : Type) := σ → Outcome α × σ

namespace Step

variable {σ α β : Type}

/-- Give `a` and leave the state alone. -/
def pure (a : α) : Step σ α := fun s => (.ok a, s)

/-- Run `x`, and `f` on its value. When `x` fails, so does the whole, in the state `x` left. -/
def bind (x : Step σ α) (f : α → Step σ β) : Step σ β := fun s =>
  match x s with
  | (.ok a, s') => f a s'
  | (.error e, s') => (.error e, s')

instance : Monad (Step σ) where
  pure := pure
  bind := bind

/-- An outcome as a step that leaves the state alone. -/
def lift (o : Outcome α) : Step σ α := fun s => (o, s)

/-- Refuse with `error`, leaving the state alone. -/
def refuse (error : Error) : Step σ α := lift (WireForm.refuse error)

/-- Look at the state. -/
def get : Step σ σ := fun s => (.ok s, s)

/-- The outcome of running `x` on `s`. -/
def eval (x : Step σ α) (s : σ) : Outcome α := (x s).1

@[simp] theorem pure_apply (a : α) (s : σ) : (Pure.pure a : Step σ α) s = (.ok a, s) := rfl

theorem bind_apply (x : Step σ α) (f : α → Step σ β) (s : σ) :
    (x >>= f) s = match x s with
      | (.ok a, s') => f a s'
      | (.error e, s') => (.error e, s') := rfl

theorem bind_of_ok {x : Step σ α} {f : α → Step σ β} {s s' : σ} {a : α} (h : x s = (.ok a, s')) :
    (x >>= f) s = f a s' := by simp [bind_apply, h]

theorem bind_of_error {x : Step σ α} {f : α → Step σ β} {s s' : σ} {e : Fault}
    (h : x s = (.error e, s')) : (x >>= f) s = (.error e, s') := by simp [bind_apply, h]

@[simp] theorem lift_apply (o : Outcome α) (s : σ) : (lift o : Step σ α) s = (o, s) := rfl

instance : LawfulMonad (Step σ) := LawfulMonad.mk' (Step σ)
  (fun x => by
    funext s
    show (match x s with
      | (.ok a, s') => (Except.ok a, s')
      | (.error e, s') => (.error e, s')) = x s
    rcases x s with ⟨_ | _, _⟩ <;> rfl)
  (fun _ _ => rfl)
  (fun x f g => by
    funext s
    simp only [bind_apply]
    rcases x s with ⟨_ | _, _⟩ <;> rfl)

end Step

end WireForm
