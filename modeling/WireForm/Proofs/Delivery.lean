import Mathlib.Data.List.Nodup
import WireForm.Proofs.Session

/-!
# Queues neither lose, repeat nor reorder items

An item leaves a queue in one of three ways: popped without waiting, as the value of a result that a
pop makes, or as the value of a result that was waiting when it was pushed. The last two are seen
from outside as a result that was provided during the call, and nothing else is needed to say what a
call delivers: no part of the queue is asked.

With that, what was pushed into a queue is what was delivered from it, in order, followed by the
items it holds. The order is kept because nothing waits while there are items, so an item that is
handed over at once overtakes none.

## Main definitions

* `Store.newlyProvided` — the results that were provided between two states of a store
* `Delivery`, `Session.deliveries`, `Session.pushed` — what a call delivers, and what it pushes
* `Session.collect` — the same over a run

## Main results

* `Session.deliveries_push`, `Session.deliveries_pop` — what pushing and popping deliver
* `Session.balance_perform`, `Session.balance_run` — the balance of a queue, for a call and a run
* `Session.nodup_consumers` — no result is delivered twice
* `queue_keeps_items` — all of it, for queues and runs from the start
-/

namespace WireForm.Sync

variable {V β : Type}

/-! ### Results that were provided -/

/-- The results that were not final in `s` and are provided in `s'`, with their values there. -/
def Store.newlyProvided (s s' : Store V) : List (V × Nat) :=
  (List.range s'.cells.length).filterMap fun id =>
    if (s.cell id).state.isFinal = false ∧ (s'.cell id).state = .provided then
      (s'.cell id).get.map (·, id)
    else none

namespace Store

variable {s s' s'' : Store V} {id : Nat} {item : V}

theorem newlyProvided_eq_nil
    (h : ∀ id, (s.cell id).state.isFinal = false → (s'.cell id).state ≠ .provided) :
    s.newlyProvided s' = [] := by
  rw [newlyProvided, List.filterMap_eq_nil_iff]
  intro id _
  exact if_neg fun hid => h id hid.1 hid.2

/-- Of one result that was provided, and no other, the list has just that. -/
theorem newlyProvided_eq_singleton (hid : id < s'.cells.length)
    (hpending : (s.cell id).state.isFinal = false)
    (hcell : s'.cell id = .ofSlot ⟨some item, .provided⟩)
    (hothers : ∀ j, j ≠ id → (s.cell j).state.isFinal = false → (s'.cell j).state ≠ .provided) :
    s.newlyProvided s' = [(item, id)] := by
  obtain ⟨before, after, hrange⟩ := List.append_of_mem (List.mem_range.mpr hid)
  have hnodup : (before ++ id :: after).Nodup := hrange ▸ List.nodup_range
  obtain ⟨hnotMem, -⟩ := List.nodup_cons.mp (List.nodup_middle.mp hnodup)
  have hnone : ∀ j ∈ before ++ after,
      (if (s.cell j).state.isFinal = false ∧ (s'.cell j).state = .provided then
        (s'.cell j).get.map (·, j)
      else none) = none := by
    intro j hj
    refine if_neg fun hprovided => hothers j ?_ hprovided.1 hprovided.2
    rintro rfl
    exact hnotMem hj
  rw [newlyProvided, hrange, List.filterMap_append, List.filterMap_cons,
    List.filterMap_eq_nil_iff.mpr fun j hj => hnone j (List.mem_append_left after hj),
    List.filterMap_eq_nil_iff.mpr fun j hj => hnone j (List.mem_append_right before hj), hcell]
  simp [hpending, Cell.state_ofSlot, Cell.get_ofSlot]

theorem mem_newlyProvided (h : (item, id) ∈ s.newlyProvided s') :
    (s.cell id).state.isFinal = false ∧ (s'.cell id).state = .provided ∧
      (s'.cell id).get = some item := by
  obtain ⟨j, -, hj⟩ := List.mem_filterMap.mp h
  split at hj
  · rename_i hprovided
    obtain ⟨value, hvalue, hpair⟩ := Option.map_eq_some_iff.mp hj
    obtain ⟨rfl, rfl⟩ := Prod.mk.inj hpair
    exact ⟨hprovided.1, hprovided.2, hvalue⟩
  · cases hj

theorem newlyProvided_self (s : Store V) : s.newlyProvided s = [] := by
  refine newlyProvided_eq_nil fun id hpending hprovided => ?_
  rw [hprovided] at hpending
  cases hpending

/-- Forgetting provides nothing. -/
theorem Forgets.state_ne_provided (h : s.Forgets s') (hs : s.Coherent)
    (hpending : (s.cell id).state.isFinal = false) : (s'.cell id).state ≠ .provided := by
  rcases h.cell_eq id with hcell | ⟨-, hcell⟩
  · rw [hcell]
    rintro hprovided
    rw [hprovided] at hpending
    cases hpending
  · rw [hcell, (hs id).cancel_of_pending hpending]
    exact State.noConfusion

end Store

/-! ### What calls deliver and push -/

/-- An item that left a queue. -/
structure Delivery (V : Type) where
  /-- The name of the queue. -/
  queue : String
  /-- The item. -/
  item : V
  /-- The number of the result that it went to, unless it was popped without waiting. -/
  consumer : Option Nat

namespace Session

variable {s : Session V} {q : Queue V} {name : String}

/-- The items that a call delivers from queues: the values of results that a push or a pop has
provided, or the item that was popped without waiting. -/
def deliveries (s : Session V) (a : Action V) : List (Delivery V) :=
  match a with
  | .push queue _ | .pop queue _ =>
    (s.store.newlyProvided (s.perform a).2.store).map fun (item, id) => ⟨queue, item, some id⟩
  | .tryPop queue =>
    match (s.perform a).1 with
    | .value (some item) => [⟨queue, item, none⟩]
    | _ => []
  | _ => []

/-- The items that a call delivers from the queue of this name. -/
def delivered (name : String) (s : Session V) (a : Action V) : List V :=
  ((s.deliveries a).filter (·.queue == name)).map (·.item)

/-- The items that a call pushes into the queue of this name, if there is one. -/
def pushed (name : String) (s : Session V) (a : Action V) : List V :=
  match a with
  | .push queue item => if queue = name ∧ (s.queues.lookup name).isSome then [item] else []
  | _ => []

/-- What is observed at each call of a run, put together. -/
def collect (observe : Session V → Action V → List β) : Session V → List (Action V) → List β
  | _, [] => []
  | s, a :: actions => observe s a ++ collect observe (s.perform a).2 actions

/-- Every delivery is from the queue that the call is about. -/
theorem queue?_of_mem_deliveries {a : Action V} {d : Delivery V} (h : d ∈ s.deliveries a) :
    a.queue? = some d.queue := by
  cases a with
  | push queue item =>
    obtain ⟨-, -, rfl⟩ := List.mem_map.mp h
    rfl
  | pop queue consumer =>
    obtain ⟨-, -, rfl⟩ := List.mem_map.mp h
    rfl
  | tryPop queue =>
    rw [deliveries] at h
    split at h
    · rw [List.mem_singleton.mp h]
      rfl
    · cases h
  | _ => cases h

/-- A pushed item goes to the back of the queue, or else to a result that was waiting and has
handles. -/
theorem deliveries_push (hs : s.Sound) (hq : s.queues.lookup name = some q) (item : V) :
    (s.deliveries (.push name item) = [] ∧
      (s.perform (.push name item)).2.queues.lookup name = some ⟨q.items ++ [item], []⟩) ∨
    ∃ id ∈ q.waiting, ∃ rest, q.items = [] ∧
      s.deliveries (.push name item) = [⟨name, item, some id⟩] ∧
      (s.perform (.push name item)).2.queues.lookup name = some ⟨[], rest⟩ ∧
      (s.perform (.push name item)).2.store.hasConsumers id = true := by
  have hsound := hs.queue name q hq
  rw [deliveries, perform_push hq]
  dsimp only
  rw [lookup_put_self]
  rcases Queue.push_cases hs.coherent item q with
    ⟨store, hforgets, -, hpush⟩ | ⟨stale, id, rest, store, hwaiting, -, hid, hforgets, hpush⟩
  · refine Or.inl ?_
    rw [hpush, Store.newlyProvided_eq_nil fun j => hforgets.state_ne_provided hs.coherent]
    exact ⟨rfl, rfl⟩
  · obtain ⟨hpending, halive⟩ := Queue.isWaiting_iff.mp hid
    have hmem : id ∈ q.waiting := by simp [hwaiting]
    have hlt : id < store.cells.length := by
      rw [hforgets.length_eq]
      exact hsound.waiting_lt id hmem
    have hprovided : s.store.newlyProvided
        (store.setCell id (.ofSlot ⟨some item, .provided⟩)) = [(item, id)] := by
      refine Store.newlyProvided_eq_singleton (by rwa [Store.length_setCell]) hpending
        (Store.cell_setCell_self hlt) fun j hj hj' => ?_
      rw [Store.cell_setCell_of_ne hj]
      exact hforgets.state_ne_provided hs.coherent hj'
    refine Or.inr ⟨id, hmem, rest, hsound.items_eq_nil hmem, ?_, ?_, ?_⟩
    · rw [hpush, hprovided]
      rfl
    · rw [hpush, hsound.items_eq_nil hmem]
    · rw [hpush, Store.hasConsumers_setCell, hforgets.hasConsumers_eq]
      exact halive

/-- The front item goes to the result of the pop, which has a handle. -/
theorem deliveries_pop (hs : s.Sound) (hq : s.queues.lookup name = some q) (consumer : String) :
    (q.items = [] ∧ s.deliveries (.pop name consumer) = [] ∧ ∃ waiting,
      (s.perform (.pop name consumer)).2.queues.lookup name = some ⟨[], waiting⟩) ∨
    ∃ item items, q.items = item :: items ∧
      s.deliveries (.pop name consumer) = [⟨name, item, some s.store.cells.length⟩] ∧
      (s.perform (.pop name consumer)).2.queues.lookup name = some ⟨items, q.waiting⟩ ∧
      (s.perform (.pop name consumer)).2.store.hasConsumers s.store.cells.length = true := by
  rw [deliveries, perform_pop hq]
  dsimp only
  rw [lookup_put_self]
  cases hitems : q.items with
  | nil =>
    obtain ⟨store, hforgets, hpop⟩ := Queue.pop_of_nil hs.coherent consumer hitems
    have hcoherent := (Queue.evolves_popStore consumer).coherent hs.coherent
    refine Or.inl ⟨rfl, ?_, _, by rw [hpop]⟩
    rw [hpop, Store.newlyProvided_eq_nil]
    · rfl
    · intro j hj
      rw [← Queue.cell_popStore consumer] at hj
      exact hforgets.state_ne_provided hcoherent hj
  | cons item items =>
    have hprovided : s.store.newlyProvided ((Queue.popStore consumer s.store).setCell
        s.store.cells.length (.ofSlot ⟨some item, .provided⟩)) =
          [(item, s.store.cells.length)] := by
      have hlt : s.store.cells.length < (Queue.popStore consumer s.store).cells.length := by
        rw [Queue.length_popStore]
        exact Nat.lt_succ_self _
      refine Store.newlyProvided_eq_singleton (by rwa [Store.length_setCell]) ?_
        (Store.cell_setCell_self hlt) fun j hj hj' => ?_
      · rw [Store.cell_of_le (Nat.le_refl _)]
        rfl
      · rw [Store.cell_setCell_of_ne hj, Queue.cell_popStore]
        exact (Store.Forgets.refl s.store).state_ne_provided hs.coherent hj'
    refine Or.inr ⟨item, items, rfl, ?_, ?_, ?_⟩
    · rw [Queue.pop_of_cons consumer s.store hitems, hprovided]
      rfl
    · rw [Queue.pop_of_cons consumer s.store hitems]
    · rw [Queue.pop_of_cons consumer s.store hitems, Store.hasConsumers_setCell]
      exact Store.hasConsumers_addHandle consumer _

theorem deliveries_tryPop (hq : s.queues.lookup name = some q) :
    (q.items = [] ∧ s.deliveries (.tryPop name) = [] ∧
      (s.perform (.tryPop name)).2.queues.lookup name = some q) ∨
    ∃ item items, q.items = item :: items ∧
      s.deliveries (.tryPop name) = [⟨name, item, none⟩] ∧
      (s.perform (.tryPop name)).2.queues.lookup name = some ⟨items, q.waiting⟩ := by
  rw [deliveries, perform_tryPop hq]
  dsimp only
  rw [lookup_put_self, Queue.tryPop]
  cases q.items with
  | nil => exact Or.inl ⟨rfl, rfl, rfl⟩
  | cons item items => exact Or.inr ⟨item, items, rfl, rfl, rfl⟩

/-! ### The balance of a queue -/

section Balance

variable {a : Action V}

theorem delivered_of_ne (h : a.queue? ≠ some name) : s.delivered name a = [] := by
  rw [delivered, List.filter_eq_nil_iff.mpr fun d hd hname => ?_, List.map_nil]
  rw [queue?_of_mem_deliveries hd, beq_iff_eq.mp hname] at h
  exact h rfl

theorem delivered_eq_map (h : a.queue? = some name) :
    s.delivered name a = (s.deliveries a).map (·.item) := by
  rw [delivered, List.filter_eq_self.mpr fun d hd => ?_]
  rw [queue?_of_mem_deliveries hd] at h
  exact beq_iff_eq.mpr (Option.some.inj h)

theorem pushed_of_ne (h : a.queue? ≠ some name) : s.pushed name a = [] := by
  cases a with
  | push queue item =>
    refine if_neg fun hname => h ?_
    rw [← hname.1]
    rfl
  | _ => rfl

theorem pushed_push (hq : s.queues.lookup name = some q) (item : V) :
    s.pushed name (.push name item) = [item] := by
  refine if_pos ⟨rfl, ?_⟩
  rw [hq]
  rfl

/-- **The balance of a queue over a call.** What it held and what was pushed is what was delivered
and what it holds. -/
theorem balance_perform (hs : s.Sound) (hq : s.queues.lookup name = some q)
    (hkept : a ≠ .queue name ∧ a ≠ .dropQueue name) :
    ∃ q', (s.perform a).2.queues.lookup name = some q' ∧
      q.items ++ s.pushed name a = s.delivered name a ++ q'.items := by
  by_cases hqueue : a.queue? = some name
  · rw [delivered_eq_map hqueue]
    cases a with
    | queue queue =>
      obtain rfl : queue = name := Option.some.inj hqueue
      exact absurd rfl hkept.1
    | push queue item =>
      obtain rfl : queue = name := Option.some.inj hqueue
      rw [pushed_push hq]
      rcases deliveries_push hs hq item with
        ⟨hnone, hlookup⟩ | ⟨id, -, rest, hitems, hone, hlookup, -⟩
      · exact ⟨_, hlookup, by rw [hnone]; rfl⟩
      · exact ⟨_, hlookup, by rw [hone, hitems]; rfl⟩
    | pop queue consumer =>
      obtain rfl : queue = name := Option.some.inj hqueue
      rcases deliveries_pop hs hq consumer with
        ⟨hitems, hnone, waiting, hlookup⟩ | ⟨item, items, hitems, hone, hlookup, -⟩
      · exact ⟨_, hlookup, by rw [hnone, hitems]; rfl⟩
      · exact ⟨_, hlookup, by rw [hone, hitems]; exact List.append_nil _⟩
    | tryPop queue =>
      obtain rfl : queue = name := Option.some.inj hqueue
      rcases deliveries_tryPop hq with
        ⟨hitems, hnone, hlookup⟩ | ⟨item, items, hitems, hone, hlookup⟩
      · exact ⟨_, hlookup, by rw [hnone, hitems]; rfl⟩
      · exact ⟨_, hlookup, by rw [hone, hitems]; exact List.append_nil _⟩
    | length queue =>
      obtain rfl : queue = name := Option.some.inj hqueue
      rw [perform_length hq]
      exact ⟨q, hq, List.append_nil _⟩
    | dropQueue queue =>
      obtain rfl : queue = name := Option.some.inj hqueue
      exact absurd rfl hkept.2
    | _ => cases hqueue
  · refine ⟨q, (lookup_perform hs hqueue).trans hq, ?_⟩
    rw [pushed_of_ne hqueue, delivered_of_ne hqueue, List.append_nil, List.nil_append]

/-- **The balance of a queue over a run**, in which its name is given to no other. -/
theorem balance_run (hs : s.Sound) (hq : s.queues.lookup name = some q)
    {actions : List (Action V)} (hkept : ∀ a ∈ actions, a ≠ .queue name ∧ a ≠ .dropQueue name) :
    ∃ q', (s.run actions).2.queues.lookup name = some q' ∧
      q.items ++ s.collect (pushed name) actions =
        s.collect (delivered name) actions ++ q'.items := by
  induction actions generalizing s q with
  | nil => exact ⟨q, hq, List.append_nil _⟩
  | cons a actions ih =>
    obtain ⟨ha, hactions⟩ := List.forall_mem_cons.mp hkept
    obtain ⟨q₁, hq₁, hstep⟩ := balance_perform hs hq ha
    obtain ⟨q', hq', hrun⟩ := ih (hs.perform a) hq₁ hactions
    refine ⟨q', hq', ?_⟩
    rw [collect, collect, ← List.append_assoc, hstep, List.append_assoc, hrun, List.append_assoc]

end Balance

/-! ### Results that deliveries go to -/

/-- Between `s` and `s'` a result was handed an item: it was not final before, is provided with the
item afterwards, and somebody is there to have it. -/
structure Receives (s s' : Session V) (id : Nat) (item : V) : Prop where
  /-- The result was not final, and so not cancelled. -/
  pending : (s.store.cell id).state.isFinal = false
  /-- Now it is provided. -/
  provided : (s'.store.cell id).state = .provided
  /-- Its value is the item. -/
  value_eq : (s'.store.cell id).get = some item
  /-- There is a handle on it. -/
  alive : s'.store.hasConsumers id = true

section Consumers

variable {a : Action V} {d : Delivery V} {id : Nat}

theorem mem_newlyProvided_of_mem_deliveries (hd : d ∈ s.deliveries a)
    (hid : d.consumer = some id) : (d.item, id) ∈ s.store.newlyProvided (s.perform a).2.store := by
  cases a with
  | push queue item =>
    obtain ⟨⟨item, id'⟩, hmem, rfl⟩ := List.mem_map.mp hd
    obtain rfl : id' = id := Option.some.inj hid
    exact hmem
  | pop queue consumer =>
    obtain ⟨⟨item, id'⟩, hmem, rfl⟩ := List.mem_map.mp hd
    obtain rfl : id' = id := Option.some.inj hid
    exact hmem
  | tryPop queue =>
    rw [deliveries] at hd
    split at hd
    · rw [List.mem_singleton.mp hd] at hid
      cases hid
    · cases hd
  | _ => cases hd

/-- Without the queue nothing is delivered, since nothing happens. -/
theorem deliveries_of_none (h : a.queue? = some name) (hq : s.queues.lookup name = none) :
    s.deliveries a = [] := by
  cases a with
  | push queue item =>
    obtain rfl : queue = name := Option.some.inj h
    rw [deliveries, show s.perform (.push queue item) = (.unknown queue, s) from
      withQueue_of_none hq _, Store.newlyProvided_self]
    rfl
  | pop queue consumer =>
    obtain rfl : queue = name := Option.some.inj h
    rw [deliveries, show s.perform (.pop queue consumer) = (.unknown queue, s) from
      withQueue_of_none hq _, Store.newlyProvided_self]
    rfl
  | tryPop queue =>
    obtain rfl : queue = name := Option.some.inj h
    rw [deliveries, show s.perform (.tryPop queue) = (.unknown queue, s) from
      withQueue_of_none hq _]
  | _ => rfl

/-- A call delivers one item or none, and to no result without handles. -/
theorem deliveries_cases (hs : s.Sound) (a : Action V) :
    s.deliveries a = [] ∨ ∃ d, s.deliveries a = [d] ∧
      ∀ id, d.consumer = some id → (s.perform a).2.store.hasConsumers id = true := by
  cases hqueue : a.queue? with
  | none =>
    refine Or.inl (List.eq_nil_iff_forall_not_mem.mpr fun d hd => ?_)
    rw [queue?_of_mem_deliveries hd] at hqueue
    cases hqueue
  | some name =>
    cases hq : s.queues.lookup name with
    | none => exact Or.inl (deliveries_of_none hqueue hq)
    | some q =>
      cases a with
      | push queue item =>
        obtain rfl : queue = name := Option.some.inj hqueue
        rcases deliveries_push hs hq item with ⟨hnone, -⟩ | ⟨id, -, rest, -, hone, -, halive⟩
        · exact Or.inl hnone
        · exact Or.inr ⟨_, hone, fun id' hid' => Option.some.inj hid' ▸ halive⟩
      | pop queue consumer =>
        obtain rfl : queue = name := Option.some.inj hqueue
        rcases deliveries_pop hs hq consumer with
          ⟨-, hnone, -⟩ | ⟨item, items, -, hone, -, halive⟩
        · exact Or.inl hnone
        · exact Or.inr ⟨_, hone, fun id' hid' => Option.some.inj hid' ▸ halive⟩
      | tryPop queue =>
        obtain rfl : queue = name := Option.some.inj hqueue
        rcases deliveries_tryPop hq with ⟨-, hnone, -⟩ | ⟨item, items, -, hone, -⟩
        · exact Or.inl hnone
        · exact Or.inr ⟨_, hone, nofun⟩
      | _ => exact Or.inl rfl

theorem receives_of_mem_deliveries (hs : s.Sound) (hd : d ∈ s.deliveries a)
    (hid : d.consumer = some id) : s.Receives (s.perform a).2 id d.item := by
  obtain ⟨hpending, hprovided, hvalue⟩ :=
    Store.mem_newlyProvided (mem_newlyProvided_of_mem_deliveries hd hid)
  refine ⟨hpending, hprovided, hvalue, ?_⟩
  rcases deliveries_cases hs a with hnone | ⟨d', hone, halive⟩
  · rw [hnone] at hd
    cases hd
  · rw [hone] at hd
    obtain rfl : d = d' := List.mem_singleton.mp hd
    exact halive id hid

/-- A result that is delivered to in the course of a run was not final when the run began. -/
theorem pending_of_mem_collect (hs : s.Sound) {actions : List (Action V)}
    (hd : d ∈ s.collect deliveries actions) (hid : d.consumer = some id) :
    (s.store.cell id).state.isFinal = false := by
  induction actions generalizing s with
  | nil => cases hd
  | cons a actions ih =>
    rcases List.mem_append.mp hd with hnow | hlater
    · exact (receives_of_mem_deliveries hs hnow hid).pending
    · have hpending := ih (hs.perform a) hlater
      rw [← Bool.not_eq_true] at hpending ⊢
      intro hfinal
      rw [(evolves_perform hs a).state_eq hs.coherent hfinal] at hpending
      exact hpending hfinal

/-- **No result is delivered to twice**, from whichever queues. -/
theorem nodup_consumers (hs : s.Sound) (actions : List (Action V)) :
    ((s.collect deliveries actions).filterMap (·.consumer)).Nodup := by
  induction actions generalizing s with
  | nil => exact List.nodup_nil
  | cons a actions ih =>
    rw [collect, List.filterMap_append]
    refine List.nodup_append.mpr ⟨?_, ih (hs.perform a), ?_⟩
    · rcases deliveries_cases hs a with hnone | ⟨d, hone, -⟩
      · rw [hnone]
        exact List.nodup_nil
      · rw [hone, List.filterMap_cons]
        split
        · exact List.nodup_nil
        · exact List.nodup_singleton _
    · -- A result that was delivered to is provided, and what is delivered to later is not.
      rintro id hnow _ hlater rfl
      obtain ⟨d, hd, hid⟩ := List.mem_filterMap.mp hnow
      obtain ⟨d', hd', hid'⟩ := List.mem_filterMap.mp hlater
      have hpending := pending_of_mem_collect (hs.perform a) hd' hid'
      rw [(receives_of_mem_deliveries hs hd hid).provided] at hpending
      cases hpending

end Consumers

end Session

/-- **A queue neither loses, repeats nor reorders items.** From the moment it is made, and after
every call of a run in which its name is given to no other, the items pushed into it are those
delivered from it, in order, followed by those it holds. No result of any queue is ever delivered to
twice, and one that is delivered to was not cancelled, has the item and a handle. -/
theorem queue_keeps_items {V : Type} :
    (∀ (before after : List (Action V)) (name : String),
      (∀ a ∈ after, a ≠ .queue name ∧ a ≠ .dropQueue name) →
      let opened := (Session.start.run (before ++ [.queue name])).2
      ∃ q, (opened.run after).2.queues.lookup name = some q ∧
        opened.collect (Session.pushed name) after =
          opened.collect (Session.delivered name) after ++ q.items) ∧
    (∀ actions : List (Action V),
      ((Session.start.collect Session.deliveries actions).filterMap (·.consumer)).Nodup) ∧
    (∀ (actions : List (Action V)) (a : Action V) (d : Delivery V) (id : Nat),
      let s := (Session.start.run actions).2
      d ∈ s.deliveries a → d.consumer = some id → s.Receives (s.perform a).2 id d.item) := by
  refine ⟨fun before after name hkept => ?_, fun actions => ?_, fun actions a d id => ?_⟩
  · have hopened := Session.sound_start.run (before ++ [.queue name])
    have hempty :
        (Session.start.run (before ++ [Action.queue (V := V) name])).2.queues.lookup name =
          some .empty := by
      rw [Session.run_append]
      exact Session.lookup_put_self _
    exact Session.balance_run hopened hempty hkept
  · exact Session.nodup_consumers Session.sound_start actions
  · intro s hd hid
    exact Session.receives_of_mem_deliveries (Session.sound_start.run actions) hd hid

/-- Of two results that wait the first is cancelled, so the first item goes to the second and the
others stay, until one of them is popped. -/
theorem queue_keeps_items_at_cancelled :
    ∃ q, ((Session.start (V := Nat)).run [.queue "q", .pop "q" "a", .pop "q" "b", .call "a" .cancel,
        .push "q" 1, .push "q" 2, .push "q" 3, .tryPop "q"]).2.queues.lookup "q" = some q ∧
      q.items = [3] := by
  obtain ⟨hbalance, -⟩ := queue_keeps_items (V := Nat)
  obtain ⟨q, hq, hitems⟩ := hbalance [] [.pop "q" "a", .pop "q" "b", .call "a" .cancel,
    .push "q" 1, .push "q" 2, .push "q" 3, .tryPop "q"] "q" (by simp)
  have hall : [1, 2] ++ [3] = [1, 2] ++ q.items := hitems
  exact ⟨q, hq, (List.append_cancel_left hall).symm⟩

end WireForm.Sync
