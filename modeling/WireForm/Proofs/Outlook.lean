import WireForm.Proofs.Mapping

/-!
# Sessions that no call tells apart

All that is known of a handle is what looking and taking give through it, whichever state its result
is in. Two chains that give the same are as good as one another, however they are made. So two
sessions with the same results, in which the same names stand for handles that give the same, answer
every call alike, and stay that way. Only counting the calls of transforms can tell them apart.

## Main definitions

* `Handle.outlook` — what is found through a handle
* `Store.Indistinct`, `Session.Indistinct` — the same results, and the same outlooks on them
* `Session.Agrees` — the same answer, and sessions that are indistinct

## Main results

* `Handle.outlook_link` — equal outlooks stay equal under one transform more
* `Session.Indistinct.call` — calls of consumers with equal outlooks
* `Session.Indistinct.perform`, `Session.Indistinct.run` — all calls, save counting, and runs
-/

namespace WireForm.Sync

variable {V : Type}

/-! ### Outlooks -/

/-- What is found through a handle. -/
structure Outlook (V : Type) where
  /-- The number of the result. -/
  cell : Nat
  /-- What looking gives. -/
  get : Cell V → Outcome (Option V)
  /-- What taking gives. -/
  take : Cell V → Outcome (Option V)
  /-- What taking gives if the value has to be final. -/
  takeFinal : Cell V → Outcome (Option V)

/-- What is found through this handle. -/
def Handle.outlook (h : Handle V) : Outlook V where
  cell := h.cell
  get c := (h.chain.get c).value
  take c := (h.chain.take c).value
  takeFinal c := (h.chain.takeFinal c).value

/-- What a transform makes of a value does not depend on where that came from. -/
theorem Retrieval.value_transform_congr {α α' β γ : Type} {r : Retrieval α β} {r' : Retrieval α' β}
    (h : r'.value = r.value) (f : Transform β γ) :
    (r'.transform f).value = (r.transform f).value := by
  rw [transform, transform, h]
  split <;> rfl

namespace Handle

variable {h h' : Handle V}

theorem outlook_eq_iff : h'.outlook = h.outlook ↔ h'.cell = h.cell ∧ ∀ c,
    (h'.chain.get c).value = (h.chain.get c).value ∧
    (h'.chain.take c).value = (h.chain.take c).value ∧
    (h'.chain.takeFinal c).value = (h.chain.takeFinal c).value := by
  simp only [outlook, Outlook.mk.injEq, funext_iff, forall_and]

/-- Under the same transform what is found stays the same. -/
theorem outlook_link (heq : h'.outlook = h.outlook) (owned : Bool) (f : Transform V V) :
    outlook { h' with chain := h'.chain.link owned f } =
      outlook { h with chain := h.chain.link owned f } := by
  obtain ⟨hcell, hfound⟩ := outlook_eq_iff.mp heq
  refine outlook_eq_iff.mpr ⟨hcell, fun c => ?_⟩
  obtain ⟨hget, htake, htakeFinal⟩ := hfound c
  cases owned with
  | true =>
    exact ⟨rfl, Retrieval.value_transform_congr htake f,
      Retrieval.value_transform_congr htakeFinal f⟩
  | false =>
    exact ⟨Retrieval.value_transform_congr hget f, Retrieval.value_transform_congr htake f,
      Retrieval.value_transform_congr htakeFinal f⟩

end Handle

/-- What is found under each name. -/
def outlooks (entries : List (String × Handle V)) : List (String × Outlook V) :=
  entries.map fun entry => (entry.1, entry.2.outlook)

section Entries

variable {entries entries' : List (String × Handle V)}

theorem lookup_outlooks (name : String) :
    (outlooks entries).lookup name = (entries.lookup name).map Handle.outlook := by
  induction entries with
  | nil => rfl
  | cons entry entries ih =>
    obtain ⟨first, h⟩ := entry
    rw [outlooks, List.map_cons, List.lookup_cons, List.lookup_cons, ← outlooks, ih]
    cases name == first <;> rfl

theorem outlooks_filter (name : String) :
    outlooks (entries.filter (·.1 != name)) = (outlooks entries).filter (·.1 != name) := by
  rw [outlooks, outlooks, List.filter_map]
  rfl

theorem outlooks_append :
    outlooks (entries ++ entries') = outlooks entries ++ outlooks entries' := List.map_append

theorem any_outlooks (id : Nat) :
    (outlooks entries).any (·.2.cell == id) = entries.any (·.2.cell == id) := List.any_map

/-- The same name stands for handles that give the same, or for none. -/
theorem lookup_cases (h : outlooks entries' = outlooks entries) (name : String) :
    entries.lookup name = none ∧ entries'.lookup name = none ∨
      ∃ handle handle', entries.lookup name = some handle ∧ entries'.lookup name = some handle' ∧
        handle'.outlook = handle.outlook := by
  have hlookup : (entries'.lookup name).map Handle.outlook =
      (entries.lookup name).map Handle.outlook := by
    rw [← lookup_outlooks, h, lookup_outlooks]
  cases hfound : entries.lookup name with
  | none =>
    rw [hfound, Option.map_none, Option.map_eq_none_iff] at hlookup
    exact Or.inl ⟨rfl, hlookup⟩
  | some handle =>
    rw [hfound, Option.map_some, Option.map_eq_some_iff] at hlookup
    obtain ⟨handle', hfound', hsame⟩ := hlookup
    exact Or.inr ⟨handle, handle', rfl, hfound', hsame⟩

end Entries

/-! ### Stores -/

/-- The same results, and the same to be found under every name. -/
structure Store.Indistinct (s t : Store V) : Prop where
  /-- The results are the same. -/
  cells_eq : t.cells = s.cells
  /-- The same is found through the live handles. -/
  handles_eq : outlooks t.handles = outlooks s.handles
  /-- So it is through those that are away. -/
  away_eq : outlooks t.away = outlooks s.away

namespace Store.Indistinct

variable {s t : Store V} {id : Nat} {name : String} {handle handle' : Handle V}

theorem refl (s : Store V) : s.Indistinct s := ⟨rfl, rfl, rfl⟩

theorem cell_eq (h : s.Indistinct t) (id : Nat) : t.cell id = s.cell id :=
  cell_of_cells_eq h.cells_eq

theorem hasConsumers_eq (h : s.Indistinct t) (id : Nat) :
    t.hasConsumers id = s.hasConsumers id := by
  rw [hasConsumers, ← any_outlooks, ← any_outlooks, h.handles_eq, h.away_eq, any_outlooks,
    any_outlooks, hasConsumers]

theorem setCell (h : s.Indistinct t) (id : Nat) (c : Cell V) :
    (s.setCell id c).Indistinct (t.setCell id c) :=
  ⟨congrArg (List.set · id c) h.cells_eq, h.handles_eq, h.away_eq⟩

theorem create (h : s.Indistinct t) (c : Cell V) : (s.create c).Indistinct (t.create c) :=
  ⟨congrArg (· ++ [c]) h.cells_eq, h.handles_eq, h.away_eq⟩

theorem dropProvider (h : s.Indistinct t) (id : Nat) :
    (s.dropProvider id).Indistinct (t.dropProvider id) := by
  rw [Store.dropProvider, Store.dropProvider, h.cell_eq]
  exact h.setCell id _

theorem foldl_dropProvider (h : s.Indistinct t) (ids : List Nat) :
    (ids.foldl (fun s id => s.dropProvider id) s).Indistinct
      (ids.foldl (fun s id => s.dropProvider id) t) := by
  induction ids generalizing s t with
  | nil => exact h
  | cons id ids ih => exact ih (h.dropProvider id)

theorem dropHandle (h : s.Indistinct t) (name : String) :
    (s.dropHandle name).Indistinct (t.dropHandle name) := by
  refine ⟨h.cells_eq, ?_, h.away_eq⟩
  rw [Store.dropHandle, outlooks_filter, h.handles_eq, ← outlooks_filter, Store.dropHandle]

theorem addHandle (h : s.Indistinct t) (hsame : handle'.outlook = handle.outlook) (name : String) :
    (s.addHandle name handle).Indistinct (t.addHandle name handle') := by
  have hdrop := h.dropHandle name
  refine ⟨hdrop.cells_eq, ?_, hdrop.away_eq⟩
  calc outlooks ((t.dropHandle name).handles ++ [(name, handle')])
      = outlooks (t.dropHandle name).handles ++ [(name, handle'.outlook)] := outlooks_append
    _ = outlooks (s.dropHandle name).handles ++ [(name, handle.outlook)] := by
        rw [hdrop.handles_eq, hsame]
    _ = outlooks ((s.dropHandle name).handles ++ [(name, handle)]) := by
        rw [outlooks_append]
        rfl

theorem sendAway (h : s.Indistinct t) (name : String) :
    (s.sendAway name).Indistinct (t.sendAway name) := by
  have hdrop := h.dropHandle name
  rcases lookup_cases h.handles_eq name with ⟨hs, ht⟩ | ⟨handle, handle', hs, ht, hsame⟩
  · rw [Store.sendAway, Store.sendAway, hs, ht]
    exact h
  · rw [Store.sendAway, Store.sendAway, hs, ht]
    refine ⟨hdrop.cells_eq, hdrop.handles_eq, ?_⟩
    show (name, handle'.outlook) :: outlooks t.away = (name, handle.outlook) :: outlooks s.away
    rw [hsame, h.away_eq]

theorem bringBack (h : s.Indistinct t) (name : String) :
    (s.bringBack name).Indistinct (t.bringBack name) := by
  rcases lookup_cases h.away_eq name with ⟨hs, ht⟩ | ⟨handle, handle', hs, ht, hsame⟩
  · rw [Store.bringBack, Store.bringBack, hs, ht]
    exact h
  · rw [Store.bringBack, Store.bringBack, hs, ht]
    have hback : Indistinct { s with away := s.away.filter (·.1 != name) }
        { t with away := t.away.filter (·.1 != name) } := by
      refine ⟨h.cells_eq, h.handles_eq, ?_⟩
      rw [outlooks_filter, h.away_eq, ← outlooks_filter]
    exact hback.addHandle hsame name

/-! ### Queues -/

/-- Offering an item comes to the same. -/
theorem serve (h : s.Indistinct t) (item : V) (waiting : List Nat) :
    (Queue.serve item waiting t).1 = (Queue.serve item waiting s).1 ∧
      (Queue.serve item waiting s).2.Indistinct (Queue.serve item waiting t).2 := by
  induction waiting generalizing s t item with
  | nil => exact ⟨rfl, h⟩
  | cons id waiting ih =>
    rw [Queue.serve, Queue.serve, h.hasConsumers_eq, h.cell_eq]
    split
    · split
      · rename_i c _
        have hset := h.setCell id c
        dsimp only [reclaim]
        rw [hset.hasConsumers_eq, hset.cell_eq]
        split
        · exact ⟨rfl, hset⟩
        · have htaken := hset.setCell id ((s.setCell id c).cell id).take.2
          cases ((s.setCell id c).cell id).take.1 with
          | some item => exact ih (htaken.dropProvider id) item
          | none => exact ⟨rfl, htaken⟩
      · exact ih ((h.setCell id _).dropProvider id) _
    · exact ih (h.dropProvider id) _

/-- Pushing comes to the same. -/
theorem push (h : s.Indistinct t) (item : V) (q : Queue V) :
    (q.push item t).2 = (q.push item s).2 ∧ (q.push item s).1.Indistinct (q.push item t).1 := by
  obtain ⟨hserved, hstore⟩ := h.serve item q.waiting
  rw [Queue.push, Queue.push]
  rcases hs : Queue.serve item q.waiting s with ⟨⟨taken, waiting⟩, s'⟩
  rcases ht : Queue.serve item q.waiting t with ⟨served, t'⟩
  rw [hs, ht] at hserved hstore
  obtain rfl : served = (taken, waiting) := hserved
  cases taken <;> exact ⟨rfl, hstore⟩

/-- Popping comes to the same. -/
theorem pop (h : s.Indistinct t) (name : String) (q : Queue V) :
    (q.pop name t).2 = (q.pop name s).2 ∧ (q.pop name s).1.Indistinct (q.pop name t).1 := by
  have hlength : t.cells.length = s.cells.length := congrArg List.length h.cells_eq
  have hnew : ((s.create .fresh).addHandle name ⟨s.cells.length, .direct⟩).Indistinct
      ((t.create .fresh).addHandle name ⟨s.cells.length, .direct⟩) :=
    (h.create .fresh).addHandle rfl name
  have hwaiting : Queue.isWaiting ((t.create .fresh).addHandle name ⟨s.cells.length, .direct⟩) =
      Queue.isWaiting ((s.create .fresh).addHandle name ⟨s.cells.length, .direct⟩) := by
    funext id
    rw [Queue.isWaiting, hnew.cell_eq, hnew.hasConsumers_eq, Queue.isWaiting]
  rw [Queue.pop, Queue.pop, hlength]
  split
  · dsimp only
    rw [hnew.cell_eq]
    exact ⟨rfl, hnew.setCell _ _⟩
  · dsimp only
    rw [hwaiting]
    exact ⟨rfl, hnew.foldl_dropProvider _⟩

end Store.Indistinct

/-! ### Sessions -/

namespace Session

variable {s t u : Session V} {name : String} {id : Nat}

/-- The same but for how consumers come by what they find, and which transforms they called. -/
structure Indistinct (s t : Session V) : Prop where
  /-- The stores are indistinct. -/
  store : s.store.Indistinct t.store
  /-- The same names have providers. -/
  providers_eq : t.providers = s.providers
  /-- The queues are the same. -/
  queues_eq : t.queues = s.queues
  /-- The same calls are on threads. -/
  spawned_eq : t.spawned = s.spawned

/-- The same answer, and sessions that are indistinct. -/
def Agrees (x y : Reply V × Session V) : Prop := y.1 = x.1 ∧ x.2.Indistinct y.2

namespace Indistinct

theorem refl (s : Session V) : s.Indistinct s := ⟨.refl _, rfl, rfl, rfl⟩

theorem symm (h : s.Indistinct t) : t.Indistinct s :=
  ⟨⟨h.store.cells_eq.symm, h.store.handles_eq.symm, h.store.away_eq.symm⟩, h.providers_eq.symm,
    h.queues_eq.symm, h.spawned_eq.symm⟩

theorem trans (h : s.Indistinct t) (h' : t.Indistinct u) : s.Indistinct u :=
  ⟨⟨h'.store.cells_eq.trans h.store.cells_eq, h'.store.handles_eq.trans h.store.handles_eq,
      h'.store.away_eq.trans h.store.away_eq⟩, h'.providers_eq.trans h.providers_eq,
    h'.queues_eq.trans h.queues_eq, h'.spawned_eq.trans h.spawned_eq⟩

/-- Sessions that differ in the transforms that were called are indistinct. -/
theorem of_uncounted (h : t.uncounted = s.uncounted) : s.Indistinct t := by
  obtain ⟨hstore, hproviders, hqueues, hspawned, -⟩ := Session.mk.inj h
  refine ⟨?_, hproviders, hqueues, hspawned⟩
  rw [hstore]
  exact .refl _

/-- Only the stores change. -/
theorem congr_store (h : s.Indistinct t) {store store' : Store V}
    (hstore : store.Indistinct store') :
    Indistinct { s with store := store } { t with store := store' } :=
  ⟨hstore, h.providers_eq, h.queues_eq, h.spawned_eq⟩

theorem setCell (h : s.Indistinct t) (id : Nat) (c : Cell V) :
    (s.setCell id c).Indistinct (t.setCell id c) := h.congr_store (h.store.setCell id c)

/-! ### Calls of consumers -/

theorem retrieve {α : Type} (h : s.Indistinct t) {r r' : Retrieval V V} (hcell : r'.cell = r.cell)
    {outcome outcome' : Outcome α} (houtcome : outcome' = outcome) (answer : α → Reply V) :
    Agrees (s.retrieve id r outcome answer) (t.retrieve id r' outcome' answer) := by
  have hset := h.setCell id r.cell
  simp only [Session.retrieve, hcell, houtcome]
  exact ⟨rfl, hset.store, hset.providers_eq, hset.queues_eq, hset.spawned_eq⟩

theorem retrieve_settled (h : s.Indistinct t) {r r' : Retrieval V V} (hcell : r'.cell = r.cell)
    (hvalue : r'.value = r.value) :
    Agrees (s.retrieve id r (r.settled .direct) settledReply)
      (t.retrieve id r' (r'.settled .direct) settledReply) := by
  refine h.retrieve hcell ?_ settledReply
  rw [Retrieval.settled, hvalue, hcell, Retrieval.settled]

theorem afterSettling (h : s.Indistinct t) {retrieve retrieve' : Cell V → Retrieval V V}
    (hcell : ∀ c, (retrieve' c).cell = (retrieve c).cell)
    (hvalue : ∀ c, (retrieve' c).value = (retrieve c).value) (settled : Option (Bool × Cell V)) :
    Agrees (s.afterSettling id (settled.map fun x => retrieve x.2))
      (t.afterSettling id (settled.map fun x => retrieve' x.2)) := by
  cases settled with
  | none => exact ⟨rfl, h⟩
  | some x => exact h.retrieve_settled (hcell x.2) (hvalue x.2)

/-- A call that waits and looks at nothing. -/
theorem waited (h : s.Indistinct t) (r : Option Bool) (answer : Bool → Reply V) :
    Agrees (match r with
      | some b => (answer b, s)
      | none => (.blocked, s)) (match r with
      | some b => (answer b, t)
      | none => (.blocked, t)) := by
  cases r <;> exact ⟨rfl, h⟩

/-- **A call through a handle of the same outlook** has the same answer. -/
theorem call (h : s.Indistinct t) {handle handle' : Handle V}
    (hsame : handle'.outlook = handle.outlook) (call : Call) :
    Agrees (s.call handle call) (t.call handle' call) := by
  obtain ⟨hid, hfound⟩ := Handle.outlook_eq_iff.mp hsame
  obtain ⟨id, ch⟩ := handle
  obtain ⟨_, ch'⟩ := handle'
  obtain rfl := hid
  have hgetCell (c : Cell V) : (ch'.get c).cell = (ch.get c).cell := by
    rw [Chain.cell_get, Chain.cell_get]
  have htakeCell (c : Cell V) : (ch'.take c).cell = (ch.take c).cell := by
    rw [Chain.cell_take, Chain.cell_take]
  have htakeFinalCell (c : Cell V) : (ch'.takeFinal c).cell = (ch.takeFinal c).cell := by
    rw [Chain.cell_takeFinal, Chain.cell_takeFinal]
  cases call with
  | wait | waitFinal | waitFor p | waitFinalFor p =>
    rw [call_eq, call_eq, callThrough, callThrough, h.store.cell_eq]
    exact h.waited _ _
  | cancelAfter p =>
    rw [call_eq, call_eq, callThrough, callThrough, h.store.cell_eq]
    cases Control.direct.cancelAfter p (s.store.cell _) with
    | none => exact ⟨rfl, h⟩
    | some x => exact ⟨rfl, h.setCell _ _⟩
  | cancel =>
    rw [call_eq, call_eq, callThrough, callThrough, h.store.cell_eq]
    exact ⟨rfl, h.setCell _ _⟩
  | tryGet =>
    rw [call_tryGet, call_tryGet, h.store.cell_eq]
    exact h.retrieve (hgetCell _) (hfound _).1 _
  | tryTake =>
    rw [call_eq, call_eq, callThrough, callThrough, h.store.cell_eq]
    exact h.retrieve (htakeCell _) (hfound _).2.1 _
  | tryTakeFinal =>
    rw [call_eq, call_eq, callThrough, callThrough, h.store.cell_eq]
    exact h.retrieve (htakeFinalCell _) (hfound _).2.2 _
  | getOrCancel =>
    rw [call_getOrCancel, call_getOrCancel, h.store.cell_eq]
    exact h.retrieve_settled (hgetCell _) (hfound _).1
  | getOrCancelAfter p =>
    rw [call_getOrCancelAfter, call_getOrCancelAfter, h.store.cell_eq]
    exact h.afterSettling hgetCell (fun c => (hfound c).1) _
  | takeOrCancelAfter p =>
    rw [call_takeOrCancelAfter, call_takeOrCancelAfter, h.store.cell_eq]
    exact h.afterSettling htakeFinalCell (fun c => (hfound c).2.2) _

/-! ### All calls -/

theorem withProvider (h : s.Indistinct t) {f g : Nat → Cell V → Reply V × Session V}
    (hfg : ∀ id c, Agrees (f id c) (g id c)) :
    Agrees (s.withProvider name f) (t.withProvider name g) := by
  rw [Session.withProvider, Session.withProvider, h.providers_eq]
  split
  · rw [h.store.cell_eq]
    exact hfg _ _
  · exact ⟨rfl, h⟩

theorem withConsumer (h : s.Indistinct t) {f g : Handle V → Reply V × Session V}
    (hfg : ∀ handle handle', handle'.outlook = handle.outlook → Agrees (f handle) (g handle')) :
    Agrees (s.withConsumer name f) (t.withConsumer name g) := by
  rw [Session.withConsumer, Session.withConsumer]
  rcases lookup_cases h.store.handles_eq name with ⟨hs, ht⟩ | ⟨handle, handle', hs, ht, hsame⟩
  · rw [hs, ht]
    exact ⟨rfl, h⟩
  · rw [hs, ht]
    exact hfg handle handle' hsame

theorem withQueue (h : s.Indistinct t) {f g : Queue V → Reply V × Session V}
    (hfg : ∀ q, Agrees (f q) (g q)) : Agrees (s.withQueue name f) (t.withQueue name g) := by
  rw [Session.withQueue, Session.withQueue, h.queues_eq]
  split
  · exact hfg _
  · exact ⟨rfl, h⟩

theorem dropProvider (h : s.Indistinct t) (name : String) :
    (s.dropProvider name).Indistinct (t.dropProvider name) := by
  rw [Session.dropProvider, Session.dropProvider, h.providers_eq]
  split
  · exact ⟨h.store.dropProvider _, rfl, h.queues_eq, h.spawned_eq⟩
  · exact h

theorem dropQueue (h : s.Indistinct t) (name : String) :
    (s.dropQueue name).Indistinct (t.dropQueue name) := by
  rw [Session.dropQueue, Session.dropQueue, h.queues_eq]
  split
  · exact ⟨h.store.foldl_dropProvider _, h.providers_eq, rfl, h.spawned_eq⟩
  · exact h

/-- A queue is replaced by another. -/
theorem putQueue (h : s.Indistinct t) {store store' : Store V} (hstore : store.Indistinct store')
    {q q' : Queue V} (hq : q' = q) :
    Indistinct { s with store := store, queues := put name q s.queues }
      { t with store := store', queues := put name q' t.queues } :=
  ⟨hstore, h.providers_eq, by rw [hq, h.queues_eq], h.spawned_eq⟩

/-- **No call but counting tells indistinct sessions apart**, and they stay indistinct. -/
theorem perform (h : s.Indistinct t) {a : Action V} (ha : a ≠ .countCalls) :
    Agrees (s.perform a) (t.perform a) := by
  cases a with
  | provider name =>
    have hdrop := h.dropProvider name
    refine ⟨rfl, hdrop.store.create _, ?_, hdrop.queues_eq, hdrop.spawned_eq⟩
    show put name _ _ = put name _ _
    rw [hdrop.providers_eq, hdrop.store.cells_eq]
  | consumer provider name =>
    exact h.withProvider fun _ _ => ⟨rfl, h.congr_store (h.store.addHandle rfl name)⟩
  | dropProvider name => exact h.withProvider fun _ _ => ⟨rfl, h.dropProvider name⟩
  | dropConsumer name =>
    exact h.withConsumer fun _ _ _ => ⟨rfl, h.congr_store (h.store.dropHandle name)⟩
  | clone consumer name =>
    exact h.withConsumer fun _ _ hsame => ⟨rfl, h.congr_store (h.store.addHandle hsame name)⟩
  | map owned f consumer name =>
    exact h.withConsumer fun _ _ hsame => ⟨rfl, h.congr_store
      ((h.store.dropHandle consumer).addHandle (Handle.outlook_link hsame owned f) name)⟩
  | countCalls => exact absurd rfl ha
  | provide name v => exact h.withProvider fun _ _ => ⟨rfl, h.setCell _ _⟩
  | tryProvide name v => exact h.withProvider fun _ _ => ⟨rfl, h.setCell _ _⟩
  | update name v => exact h.withProvider fun _ _ => ⟨rfl, h.setCell _ _⟩
  | produce name produced isFinal => exact h.withProvider fun _ _ => ⟨rfl, h.setCell _ _⟩
  | cancelProvider name => exact h.withProvider fun _ _ => ⟨rfl, h.setCell _ _⟩
  | providerState name => exact h.withProvider fun _ _ => ⟨rfl, h⟩
  | consumerState name =>
    refine h.withConsumer fun handle handle' hsame => ⟨?_, h⟩
    obtain ⟨hid, -⟩ := Handle.outlook_eq_iff.mp hsame
    rw [Chain.control_eq, Chain.control_eq, hid, h.store.cell_eq]
  | call name call => exact h.withConsumer fun _ _ hsame => h.call hsame call
  | spawn name call =>
    refine h.withConsumer fun _ _ _ =>
      ⟨rfl, h.store.sendAway name, h.providers_eq, h.queues_eq, ?_⟩
    show put name call _ = put name call _
    rw [h.spawned_eq]
  | join name =>
    rw [Session.perform, Session.perform, h.spawned_eq]
    rcases lookup_cases h.store.away_eq name with ⟨hs, ht⟩ | ⟨handle, handle', hs, ht, hsame⟩
    · rw [hs, ht]
      exact ⟨rfl, h⟩
    · rw [hs, ht]
      cases s.spawned.lookup name with
      | none => exact ⟨rfl, h⟩
      | some call =>
        obtain ⟨hreply, hafter⟩ := h.call hsame call
        obtain ⟨hid, -⟩ := Handle.outlook_eq_iff.mp hsame
        refine ⟨?_, hafter.store.bringBack name, hafter.providers_eq, hafter.queues_eq,
          congrArg (List.filter _) hafter.spawned_eq⟩
        show Reply.joined _ _ = Reply.joined _ _
        rw [hreply, Chain.control_eq, Chain.control_eq, hid, hafter.store.cell_eq]
  | queue name =>
    have hdrop := h.dropQueue name
    refine ⟨rfl, hdrop.store, hdrop.providers_eq, ?_, hdrop.spawned_eq⟩
    exact congrArg (put name .empty) hdrop.queues_eq
  | push name item =>
    refine h.withQueue fun q => ?_
    obtain ⟨hq, hstore⟩ := h.store.push item q
    exact ⟨rfl, h.putQueue hstore hq⟩
  | pop name consumer =>
    refine h.withQueue fun q => ?_
    obtain ⟨hq, hstore⟩ := h.store.pop consumer q
    refine ⟨?_, h.putQueue hstore hq⟩
    show Reply.popped _ = Reply.popped _
    rw [h.store.cells_eq, hstore.cell_eq]
  | tryPop name => exact h.withQueue fun q => ⟨rfl, h.putQueue h.store rfl⟩
  | length name => exact h.withQueue fun q => ⟨rfl, h⟩
  | dropQueue name => exact h.withQueue fun q => ⟨rfl, h.dropQueue name⟩

/-- **No run of calls tells indistinct sessions apart**, as long as it does not count. -/
theorem run (h : s.Indistinct t) {actions : List (Action V)} (ha : ∀ a ∈ actions, a ≠ .countCalls) :
    (t.run actions).1 = (s.run actions).1 ∧ (s.run actions).2.Indistinct (t.run actions).2 := by
  induction actions generalizing s t with
  | nil => exact ⟨rfl, h⟩
  | cons a actions ih =>
    obtain ⟨ha, hactions⟩ := List.forall_mem_cons.mp ha
    obtain ⟨hreply, hafter⟩ := h.perform ha
    obtain ⟨hreplies, hend⟩ := ih hafter hactions
    exact ⟨List.cons_eq_cons.mpr ⟨hreply, hreplies⟩, hend⟩

end Indistinct

end Session

end WireForm.Sync
