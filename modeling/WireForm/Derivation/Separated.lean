import WireForm.Derivation.Token

/-!
# Lists with separators

A list is written with a separator between its elements, and there may be one more behind the last
element. Whether there is one is kept, because a list is written back as it was read.

Where parameters and arguments are written, lifetimes come first, whatever their place in the list,
and every element keeps the comma behind it. A comma is put between lifetimes and the others where
that leaves none.

## Main definitions

* `Separated` — a list and whether a separator ends it
* `Separated.code` — the list as it was read
* `Separated.lifetimesFirst` — the list with lifetimes in front
-/

namespace WireForm.Derivation

/-- Elements with separators between them. -/
structure Separated (α : Type) where
  /-- The elements. -/
  elements : List α
  /-- Whether a separator follows the last element. -/
  trailing : Bool
  deriving Repr

namespace Separated

variable {α : Type}

/-- No elements. -/
def empty : Separated α := ⟨[], false⟩

/-- An element and a separator in front of others. -/
def cons (first : α) (rest : Separated α) : Separated α :=
  ⟨first :: rest.elements, rest.trailing || rest.elements.isEmpty⟩

/-- Other elements behind the last one, which they are separated from. -/
def append (list : Separated α) (more : List α) : Separated α :=
  if more.isEmpty then list else ⟨list.elements ++ more, false⟩

/-- Every element, with whether a separator follows it. -/
def marked (list : Separated α) : List (α × Bool) :=
  let last := list.elements.length - 1
  list.elements.zipIdx.map fun (a, i) => (a, i != last || list.trailing)

/-- Elements with a separator behind those that have one. -/
def entries (separator : Code) (write : α → Code) (marked : List (α × Bool)) : Code :=
  marked.flatMap fun (a, separated) => write a ++ if separated then separator else []

/-- The list as it was read. -/
def code (list : Separated α) (separator : Code) (write : α → Code) : Code :=
  entries separator write list.marked

/-- The list with commas and with its lifetimes in front. -/
def lifetimesFirst (list : Separated α) (isLifetime : α → Bool) (write : α → Code) : Code :=
  let (lifetimes, others) := list.marked.partition fun (a, _) => isLifetime a
  let missing := !others.isEmpty && lifetimes.any fun (_, separated) => !separated
  entries comma write lifetimes ++ (if missing then comma else []) ++ entries comma write others

end Separated

end WireForm.Derivation
