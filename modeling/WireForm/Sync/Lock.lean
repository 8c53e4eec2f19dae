/-!
# Locks

A lock guards a value. Any number of readers can hold it at once, and a writer excludes everybody
else; a plain mutex is a lock that is only ever held by writers. Guards go by name.

All calls come from one thread, so one that cannot have the lock now will never have it: acquiring
then gives `none`, and what the caller makes of it — waiting for ever, or giving up after some
time — is a matter of which call it was.

## Main definitions

* `Access`, `Lock` — the two ways to hold a lock, and a lock with its guards
* `Lock.acquire`, `Lock.release` — taking and giving back a guard
* `Lock.get?`, `Lock.set?` — the value through a guard
* `Lock.exclusive` — the value of a lock that nobody holds
-/

namespace WireForm.Sync

/-- How a guard holds a lock. -/
inductive Access where
  | read
  | write
  deriving DecidableEq, Repr

/-- A value and the guards that hold it. -/
structure Lock (α : Type) where
  /-- The value. -/
  value : α
  /-- The guards. -/
  guards : List (String × Access)
  deriving Repr

namespace Lock

variable {α : Type}

/-- A lock that nobody holds. -/
def free (value : α) : Lock α := ⟨value, []⟩

/-- Whether a guard of this access can be had beside those held. -/
def admits (l : Lock α) : Access → Bool
  | .read => l.guards.all fun guard => guard.2 == .read
  | .write => l.guards.isEmpty

/-- Hold the lock under a name, in place of a guard of that name. None when it cannot be had. -/
def acquire (access : Access) (name : String) (l : Lock α) : Option (Lock α) :=
  if l.admits access then
    some { l with guards := (name, access) :: l.guards.filter (·.1 != name) }
  else none

/-- The value seen by a guard, if it holds the lock. -/
def get? (name : String) (l : Lock α) : Option α := (l.guards.lookup name).map fun _ => l.value

/-- Set the value through a guard, if it holds the lock for writing. -/
def set? (name : String) (value : α) (l : Lock α) : Option (Lock α) :=
  if l.guards.lookup name == some .write then some { l with value := value } else none

/-- Give a guard back, and say whether there was one. -/
def release (name : String) (l : Lock α) : Bool × Lock α :=
  ((l.guards.lookup name).isSome, { l with guards := l.guards.filter (·.1 != name) })

/-- Change the value of a lock that nobody holds. -/
def exclusive (f : α → α) (l : Lock α) : Option (Lock α) :=
  if l.guards.isEmpty then some { l with value := f l.value } else none

end Lock

end WireForm.Sync
