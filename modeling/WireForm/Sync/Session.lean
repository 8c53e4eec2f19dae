import WireForm.Sync.Queue

/-!
# Sessions

A session is a run of calls on providers, consumers and queues, which go by name. A call of a
consumer can be put on a thread of its own, where it runs until it is joined. The handle goes to the
thread and stays alive there, its name is free meanwhile, and the join puts it back. Nothing else
decides a result between the moment that settles it and the join, so the call runs at the join.

## Main definitions

* `Call`, `Action`, `Reply` — the calls of a consumer, all calls, and their answers
* `Session`, `Session.call`, `Session.perform` — the state of a run, a consumer's call, and one step
-/

namespace WireForm.Sync

/-- A call of a consumer. -/
inductive Call where
  | wait
  | waitFinal
  | waitFor (p : Patience)
  | waitFinalFor (p : Patience)
  | cancelAfter (p : Patience)
  | cancel
  | tryGet
  | tryTake
  | tryTakeFinal
  | getOrCancel
  | getOrCancelAfter (p : Patience)
  | takeOrCancelAfter (p : Patience)
  deriving DecidableEq, Repr

/-- The calls by name, where one that waits is this patient. -/
def Call.named (p : Patience) : List (String × Call) :=
  [("wait", wait), ("wait_final", waitFinal), ("wait_timeout", waitFor p),
    ("wait_final_timeout", waitFinalFor p), ("cancel_after", cancelAfter p), ("cancel", cancel),
    ("try_get", tryGet), ("try_take", tryTake), ("try_take_final", tryTakeFinal),
    ("get_or_cancel", getOrCancel), ("get_or_cancel_timeout", getOrCancelAfter p),
    ("take_or_cancel_timeout", takeOrCancelAfter p)]

/-- The call of this name. -/
def Call.ofName? (name : String) (p : Patience) : Option Call := (named p).lookup name

/-- A call, with the names it is about. -/
inductive Action (V : Type) where
  /-- Make a provider. -/
  | provider (name : String)
  /-- Make a consumer of a provider's result. -/
  | consumer (provider name : String)
  | dropProvider (name : String)
  | dropConsumer (name : String)
  /-- Make another handle of a consumer. -/
  | clone (consumer name : String)
  /-- Put a transform on a consumer, which then goes by another name. -/
  | map (owned : Bool) (f : Transform V V) (consumer name : String)
  /-- Count the calls of transforms. -/
  | countCalls
  | provide (provider : String) (value : V)
  | tryProvide (provider : String) (value : V)
  | update (provider : String) (value : V)
  /-- Run a producing callback. -/
  | produce (provider : String) (produced : Produced V) (isFinal : Bool)
  | cancelProvider (provider : String)
  | providerState (provider : String)
  | consumerState (consumer : String)
  | call (consumer : String) (call : Call)
  /-- Put a call on a thread. -/
  | spawn (consumer : String) (call : Call)
  /-- Wait for the call that was put on a thread. -/
  | join (consumer : String)
  /-- Make a queue. -/
  | queue (name : String)
  | push (queue : String) (value : V)
  | pop (queue name : String)
  | tryPop (queue : String)
  | length (queue : String)
  | dropQueue (queue : String)

/-- The answer to a call. -/
inductive Reply (V : Type) where
  /-- Nothing to say. -/
  | done
  /-- Whether the call did, or found, what it is for. -/
  | flag (result : Bool)
  /-- The value retrieved, if there is one. -/
  | value (value : Option V)
  /-- Why there is no final value. -/
  | unavailable (reason : Unavailable)
  /-- The call waits for ever. -/
  | blocked
  /-- A transform crashed. -/
  | crashed
  /-- A value that was not needed any more. -/
  | returned (value : V)
  /-- The state after a producing callback, and whether that ran. -/
  | produced (state : State) (ran : Bool)
  /-- The state of a result, and what the handle is called. -/
  | state (handle : String) (state : State)
  /-- The state of the result of a pop. -/
  | popped (state : State)
  /-- The answer of a call that ran on a thread, and the state after it. -/
  | joined (reply : Reply V) (state : State)
  /-- A number of items. -/
  | length (count : Nat)
  /-- A number of calls of transforms. -/
  | calls (count : Nat)
  /-- There is nothing of this name. -/
  | unknown (name : String)

/-- The state of a run. -/
structure Session (V : Type) : Type 1 where
  /-- The results and the handles of consumers. -/
  store : Store V
  /-- The providers, with the numbers of their results. -/
  providers : List (String × Nat)
  /-- The queues. -/
  queues : List (String × Queue V)
  /-- The calls that are on threads. -/
  spawned : List (String × Call)
  /-- The labels of all transforms called so far, in order. -/
  calls : List Nat

namespace Session

variable {V : Type}

/-- The start of a run. -/
def start : Session V := ⟨.empty, [], [], [], []⟩

/-- Replace the entry of a name. -/
def put {β : Type} (name : String) (b : β) (entries : List (String × β)) : List (String × β) :=
  (name, b) :: entries.filter (·.1 != name)

/-- Change a result. -/
def setCell (s : Session V) (id : Nat) (c : Cell V) : Session V :=
  { s with store := s.store.setCell id c }

/-- The session after a retrieval from a result, with what `answer` makes of it. -/
def retrieve {α β : Type} (s : Session V) (id : Nat) (r : Retrieval V β)
    (outcome : Outcome α) (answer : α → Reply V) : Reply V × Session V :=
  let s := s.setCell id r.cell
  let s := { s with calls := s.calls ++ r.calls }
  (match outcome with
    | .ok a => answer a
    | .error _ => .crashed, s)

/-- The answer to a value, or to the reason why there is none. -/
def settledReply : Except Unavailable V → Reply V
  | .ok v => .value (some v)
  | .error reason => .unavailable reason

/-- Perform a call of a consumer with this handle, where calls that touch no value go this way. -/
def callThrough (control : Control V) (s : Session V) (h : Handle V) (call : Call) :
    Reply V × Session V :=
  let c := s.store.cell h.cell
  let waited := fun (r : Option Bool) (answer : Bool → Reply V) =>
    match r with
    | some b => (answer b, s)
    | none => (.blocked, s)
  let settled := fun (r : Option (Retrieval V V)) =>
    match r with
    | some r => s.retrieve h.cell r (r.settled control) settledReply
    | none => (.blocked, s)
  let fetched := fun (r : Retrieval V V) => s.retrieve h.cell r r.value .value
  match call with
  | .wait => waited (control.wait c) fun _ => .done
  | .waitFinal => waited (control.waitFinal c) fun _ => .done
  | .waitFor p => waited (control.waitFor p c) .flag
  | .waitFinalFor p => waited (control.waitFinalFor p c) .flag
  | .cancelAfter p =>
    match control.cancelAfter p c with
    | some (inTime, c) => (.flag inTime, s.setCell h.cell c)
    | none => (.blocked, s)
  | .cancel => let (did, c) := control.cancel c; (.flag did, s.setCell h.cell c)
  | .tryGet => fetched (h.chain.get c)
  | .tryTake => fetched (h.chain.take c)
  | .tryTakeFinal => fetched (h.chain.takeFinal c)
  | .getOrCancel => settled (some (h.chain.getOrCancel c))
  | .getOrCancelAfter p => settled (h.chain.getOrCancelAfter p c)
  | .takeOrCancelAfter p => settled (h.chain.takeOrCancelAfter p c)

/-- Perform a call of a consumer with this handle. -/
def call (s : Session V) (h : Handle V) (call : Call) : Reply V × Session V :=
  s.callThrough h.chain.control h call

/-- Do something with a provider's result. -/
def withProvider (s : Session V) (name : String) (f : Nat → Cell V → Reply V × Session V) :
    Reply V × Session V :=
  match s.providers.lookup name with
  | some id => f id (s.store.cell id)
  | none => (.unknown name, s)

/-- Do something with a consumer's handle. -/
def withConsumer (s : Session V) (name : String) (f : Handle V → Reply V × Session V) :
    Reply V × Session V :=
  match s.store.handles.lookup name with
  | some h => f h
  | none => (.unknown name, s)

/-- Do something with a queue. -/
def withQueue (s : Session V) (name : String) (f : Queue V → Reply V × Session V) :
    Reply V × Session V :=
  match s.queues.lookup name with
  | some q => f q
  | none => (.unknown name, s)

/-- Keep a handle under a name. -/
def addHandle (s : Session V) (name : String) (h : Handle V) : Session V :=
  { s with store := s.store.addHandle name h }

/-- Let a provider go, if there is one of this name. -/
def dropProvider (s : Session V) (name : String) : Session V :=
  match s.providers.lookup name with
  | some id =>
    { s with store := s.store.dropProvider id, providers := s.providers.filter (·.1 != name) }
  | none => s

/-- Let a queue go, if there is one of this name. -/
def dropQueue (s : Session V) (name : String) : Session V :=
  match s.queues.lookup name with
  | some q => { s with store := q.close s.store, queues := s.queues.filter (·.1 != name) }
  | none => s

/-- Perform a call. -/
def perform (action : Action V) (s : Session V) : Reply V × Session V :=
  match action with
  | .provider name =>
    let s := s.dropProvider name
    let id := s.store.cells.length
    (.done, { s with store := s.store.create .fresh, providers := put name id s.providers })
  | .consumer provider name =>
    s.withProvider provider fun id _ => (.done, s.addHandle name ⟨id, .direct⟩)
  | .dropProvider name => s.withProvider name fun _ _ => (.done, s.dropProvider name)
  | .dropConsumer name =>
    s.withConsumer name fun _ => (.done, { s with store := s.store.dropHandle name })
  | .clone consumer name => s.withConsumer consumer fun h => (.done, s.addHandle name h)
  | .map owned f consumer name => s.withConsumer consumer fun h =>
    let chain := if owned then h.chain.mapOwned f else h.chain.map f
    let s := { s with store := s.store.dropHandle consumer }
    (.done, s.addHandle name { h with chain := chain })
  | .countCalls => (.calls s.calls.length, s)
  | .provide provider value => s.withProvider provider fun id c =>
    let (back, c) := c.provide value
    (.flag back.isNone, s.setCell id c)
  | .tryProvide provider value => s.withProvider provider fun id c =>
    let (back, c) := c.provide value
    (match back with
      | some value => .returned value
      | none => .done, s.setCell id c)
  | .update provider value => s.withProvider provider fun id c =>
    let (did, c) := c.update value
    (.flag did, s.setCell id c)
  | .produce provider produced isFinal => s.withProvider provider fun id c =>
    let ((state, ran), c) := c.produce produced isFinal
    (.produced state ran, s.setCell id c)
  | .cancelProvider provider => s.withProvider provider fun id c =>
    let (did, c) := c.cancel
    (.flag did, s.setCell id c)
  | .providerState provider => s.withProvider provider fun _ c => (.state "Provider" c.state, s)
  | .consumerState consumer => s.withConsumer consumer fun h =>
    (.state "Cancellable" (h.chain.control.state (s.store.cell h.cell)), s)
  | .call consumer call => s.withConsumer consumer fun h => s.call h call
  | .spawn consumer call => s.withConsumer consumer fun _ =>
    (.done, { s with store := s.store.sendAway consumer, spawned := put consumer call s.spawned })
  | .join consumer =>
    match s.store.away.lookup consumer, s.spawned.lookup consumer with
    | some h, some call =>
      let (reply, s) := s.call h call
      (.joined reply (h.chain.control.state (s.store.cell h.cell)),
        { s with
          store := s.store.bringBack consumer
          spawned := s.spawned.filter (·.1 != consumer) })
    | _, _ => (.unknown consumer, s)
  | .queue name =>
    let s := s.dropQueue name
    (.done, { s with queues := put name .empty s.queues })
  | .push queue value => s.withQueue queue fun q =>
    let (store, q) := q.push value s.store
    (.done, { s with store := store, queues := put queue q s.queues })
  | .pop queue name => s.withQueue queue fun q =>
    let id := s.store.cells.length
    let (store, q) := q.pop name s.store
    (.popped (store.cell id).state, { s with store := store, queues := put queue q s.queues })
  | .tryPop queue => s.withQueue queue fun q =>
    let (item, q) := q.tryPop
    (.value item, { s with queues := put queue q s.queues })
  | .length queue => s.withQueue queue fun q => (.length q.items.length, s)
  | .dropQueue queue => s.withQueue queue fun _ => (.done, s.dropQueue queue)

/-- Perform calls one after the other. -/
def run (s : Session V) : List (Action V) → List (Reply V) × Session V
  | [] => ([], s)
  | action :: actions =>
    let (reply, s) := s.perform action
    let (replies, s) := s.run actions
    (reply :: replies, s)

end Session

end WireForm.Sync
