import WireForm.Sync.Consumer

/-!
# Queues that can be waited on

A queue holds items, first in, first out. Popping it always gives a result: of the front item, or
one that waits for an item to be pushed. A pushed item goes to the consumer that has waited longest,
but never to one that has cancelled its result or of which no handle is left; such waiters are
passed over, or forgotten when the next consumer begins to wait.

Results live in a store, under numbers that are never used twice, next to the handles that are
alive. A handle is known by a name, or is away on a thread that will bring it back. A provider that
goes away cancels its result.

## Main definitions

* `Handle`, `Store` — handles of consumers, and the results with the live handles
* `Queue`, `Queue.push`, `Queue.pop`, `Queue.tryPop`, `Queue.close`
-/

namespace WireForm.Sync

/-- A handle of a consumer: the number of the result, and the transforms on the way. -/
structure Handle (V : Type) : Type 1 where
  /-- The number of the result. -/
  cell : Nat
  /-- The transforms. -/
  chain : Chain V V

/-- All results, and the handles of consumers that are alive. -/
structure Store (V : Type) : Type 1 where
  /-- The results, by number. -/
  cells : List (Cell V)
  /-- The live handles, by name. -/
  handles : List (String × Handle V)
  /-- The handles that are away, by the name under which they come back. -/
  away : List (String × Handle V)

namespace Store

variable {V : Type}

/-- No results. -/
def empty : Store V := ⟨[], [], []⟩

/-- A new result; its number is that of the results before it. -/
def create (c : Cell V) (s : Store V) : Store V := { s with cells := s.cells ++ [c] }

/-- Change a result. -/
def setCell (id : Nat) (c : Cell V) (s : Store V) : Store V := { s with cells := s.cells.set id c }

/-- The result with this number. A number that was never given out stands for one that nothing is
known of. -/
def cell (s : Store V) (id : Nat) : Cell V := s.cells[id]?.getD .fresh

/-- Whether a handle on this result is alive. -/
def hasConsumers (s : Store V) (id : Nat) : Bool :=
  s.handles.any (·.2.cell == id) || s.away.any (·.2.cell == id)

/-- Let a handle go. -/
def dropHandle (name : String) (s : Store V) : Store V :=
  { s with handles := s.handles.filter (·.1 != name) }

/-- Keep a handle under a name, in place of any other. -/
def addHandle (name : String) (h : Handle V) (s : Store V) : Store V :=
  let s := s.dropHandle name
  { s with handles := s.handles ++ [(name, h)] }

/-- Send a handle away, if there is one of this name. -/
def sendAway (name : String) (s : Store V) : Store V :=
  match s.handles.lookup name with
  | some h => { s.dropHandle name with away := (name, h) :: s.away }
  | none => s

/-- Have the handle back that went away under this name, in place of any other. -/
def bringBack (name : String) (s : Store V) : Store V :=
  match s.away.lookup name with
  | some h => { s with away := s.away.filter (·.1 != name) }.addHandle name h
  | none => s

/-- Let the provider of a result go. A result that is not final is cancelled. -/
def dropProvider (id : Nat) (s : Store V) : Store V := s.setCell id (s.cell id).cancel.2

/-- Take a provided value back out of a result. -/
def reclaim (id : Nat) (s : Store V) : Option V × Store V :=
  let (a, c) := (s.cell id).take
  (a, s.setCell id c)

end Store

/-- Items, and the numbers of the results that wait for one, both in the order of their coming. -/
structure Queue (V : Type) where
  /-- The items. -/
  items : List V
  /-- The results that wait. -/
  waiting : List Nat
  deriving Repr

namespace Queue

variable {V : Type}

/-- A queue with no items. -/
def empty : Queue V := ⟨[], []⟩

/-- Offer an item to waiting results, oldest first, until one takes it. An item that was taken by a
result whose last handle has gone meanwhile is taken back and offered on. Gives the results that
were not asked, and the number of the one that took the item, or the item itself. -/
def serve (item : V) : List Nat → Store V → (Except V Nat × List Nat) × Store V
  | [], s => ((.error item, []), s)
  | id :: waiting, s =>
    if s.hasConsumers id then
      match (s.cell id).provide item with
      | (none, c) =>
        let s := s.setCell id c
        if s.hasConsumers id then ((.ok id, waiting), s)
        else match s.reclaim id with
          | (some item, s) => serve item waiting (s.dropProvider id)
          | (none, s) => ((.ok id, waiting), s)
      | (some item, c) => serve item waiting ((s.setCell id c).dropProvider id)
    else serve item waiting (s.dropProvider id)

/-- Push an item: to the oldest result that still wants it, or else to the back. -/
def push (item : V) (s : Store V) (q : Queue V) : Store V × Queue V :=
  match serve item q.waiting s with
  | ((.ok _, waiting), s) => (s, { q with waiting := waiting })
  | ((.error item, waiting), s) => (s, { items := q.items ++ [item], waiting := waiting })

/-- Whether a waiting result still wants an item. -/
def isWaiting (s : Store V) (id : Nat) : Bool := !(s.cell id).state.isFinal && s.hasConsumers id

/-- Pop the queue under the name of a new consumer: its result has the front item already, or waits
behind the others that still do. -/
def pop (name : String) (s : Store V) (q : Queue V) : Store V × Queue V :=
  let id := s.cells.length
  let s := (s.create .fresh).addHandle name ⟨id, .direct⟩
  match q.items with
  | item :: items => (s.setCell id ((s.cell id).provide item).2, { q with items := items })
  | [] =>
    let (kept, gone) := q.waiting.partition (isWaiting s)
    (gone.foldl (fun s id => s.dropProvider id) s, { q with waiting := kept ++ [id] })

/-- Pop the front item, if there is one. -/
def tryPop (q : Queue V) : Option V × Queue V :=
  match q.items with
  | item :: items => (some item, { q with items := items })
  | [] => (none, q)

/-- Let a queue go, which cancels all results that wait. -/
def close (s : Store V) (q : Queue V) : Store V := q.waiting.foldl (fun s id => s.dropProvider id) s

end Queue

end WireForm.Sync
