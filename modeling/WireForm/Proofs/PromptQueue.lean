import WireForm.Proofs.Likeness
import WireForm.Proofs.Waiting

/-!
# Queues that forget at once

A queue lets stale waiters stay in line until an item is offered to them or the next consumer begins
to wait. Beside it stands a queue without such checks: a pushed item goes to whoever is first in
line, a consumer that finds no item joins the line, and after every call all those are out of line
that have cancelled or lost their last handle.

Started with the same line, but for stale waiters, the two do the same to all results that still
have handles, and end with the same line, but for stale waiters.

## Main definitions

* `Store.wants` — a consumer has neither cancelled nor lost its last handle
* `Queue.hand`, `Queue.await`, `Queue.forget` — the queue that forgets at once
* `Session.performPrompt`, `Session.runPrompt` — calls and runs with such queues

## Main results

* `Queue.forget_forget` — what is forgotten later need not be forgotten first
* `Queue.push_eq_hand`, `Queue.pop_eq_await`, `Queue.alike_close` — what the queues do, side by side
-/

namespace WireForm.Sync

variable {V : Type}

/-! ### The queue that forgets at once -/

/-- A consumer that waits wants an item, unless it has cancelled its result or its last handle has
gone. -/
def Store.wants (s : Store V) (id : Nat) : Bool :=
  (s.cell id).state != .cancelled && s.hasConsumers id

namespace Queue

/-- Hand an item to the consumer that has waited longest, or else append it. -/
def hand (item : V) (s : Store V) (q : Queue V) : Store V × Queue V :=
  match q.waiting with
  | id :: waiting => (s.setCell id (.ofSlot ⟨some item, .provided⟩), { q with waiting := waiting })
  | [] => (s, { q with items := q.items ++ [item] })

/-- Give the front item to a new consumer, or else let it wait at the back. -/
def await (name : String) (s : Store V) (q : Queue V) : Store V × Queue V :=
  let id := s.cells.length
  match q.items with
  | item :: items =>
    ((s.create (.ofSlot ⟨some item, .provided⟩)).addHandle name ⟨id, .direct⟩,
      { q with items := items })
  | [] => ((s.create .fresh).addHandle name ⟨id, .direct⟩, { q with waiting := q.waiting ++ [id] })

/-- Forget all consumers that do not want an item any more. -/
def forget (s : Store V) (q : Queue V) : Queue V := { q with waiting := q.waiting.filter s.wants }

end Queue

namespace Session

/-- Forget all consumers that do not want an item any more, in all queues. -/
def forget (s : Session V) : Session V :=
  { s with queues := s.queues.map fun (name, q) => (name, q.forget s.store) }

/-- Perform a call, with queues that forget at once. -/
def performPrompt (action : Action V) (s : Session V) : Reply V × Session V :=
  let (reply, s) := match action with
    | .push queue value => s.withQueue queue fun q =>
      let (store, q) := q.hand value s.store
      (.done, { s with store := store, queues := put queue q s.queues })
    | .pop queue name => s.withQueue queue fun q =>
      let id := s.store.cells.length
      let (store, q) := q.await name s.store
      (.popped (store.cell id).state, { s with store := store, queues := put queue q s.queues })
    | action => s.perform action
  (reply, s.forget)

/-- Perform calls one after the other, with queues that forget at once. -/
def runPrompt (s : Session V) : List (Action V) → List (Reply V) × Session V
  | [] => ([], s)
  | action :: actions =>
    let (reply, s) := s.performPrompt action
    let (replies, s) := s.runPrompt actions
    (reply :: replies, s)

end Session

/-! ### Who wants an item -/

namespace Store

variable {s s' t : Store V} {id : Nat} {P : Nat → Prop}

theorem wants_iff : s.wants id = true ↔
    (s.cell id).state ≠ .cancelled ∧ s.hasConsumers id = true := by
  rw [wants, Bool.and_eq_true, bne_iff_ne]

/-- As long as nothing was set, who has not cancelled still waits. -/
theorem Unset.wants_eq (h : s.Unset id) : s.wants id = Queue.isWaiting s id := by
  rw [wants, Queue.isWaiting]
  rcases h with hstate | hstate <;> rw [hstate] <;> rfl

/-- Only handles matter, and the results that have some. -/
theorem Alike.wants_eq (h : s.Alike P t) (hP : ∀ id, s.hasConsumers id = true → P id) :
    t.wants = s.wants := by
  funext id
  rw [wants, h.hasConsumers_eq, wants]
  cases hhas : s.hasConsumers id with
  | true => rw [h.cell_eq id (hP id hhas)]
  | false => rw [Bool.and_false, Bool.and_false]

theorem wants_of_forgets (hforgets : s.Forgets s') (h : s'.wants id = true) :
    s.wants id = true := by
  obtain ⟨hstate, hhas⟩ := wants_iff.mp h
  rw [hforgets.hasConsumers_eq] at hhas
  rw [hforgets.cell_eq_of_hasConsumers hhas] at hstate
  exact wants_iff.mpr ⟨hstate, hhas⟩

end Store

namespace Queue

variable {s s' t : Store V} {q : Queue V} {P : Nat → Prop}

/-- What is forgotten later need not be forgotten first. -/
theorem forget_forget (h : ∀ id ∈ q.waiting, s'.wants id = true → s.wants id = true) :
    (q.forget s).forget s' = q.forget s' := by
  rw [forget, forget, forget, List.filter_filter]
  congr 1
  refine List.filter_congr fun id hid => ?_
  cases hwants : s'.wants id with
  | true => rw [h id hid hwants, Bool.and_self]
  | false => rw [Bool.false_and]

/-- Those that an item would be offered to in vain do not want one. -/
theorem filter_wants_of_stale {ids : List Nat} (hunset : ∀ id ∈ ids, s.Unset id)
    (hstale : ∀ id ∈ ids, isWaiting s id = false) : ids.filter s.wants = [] := by
  rw [List.filter_eq_nil_iff]
  intro id hid
  rw [(hunset id hid).wants_eq, hstale id hid]
  exact Bool.false_ne_true

/-! ### Queues side by side -/

theorem hand_of_nil (item : V) (s : Store V) (h : q.waiting = []) :
    q.hand item s = (s, ⟨q.items ++ [item], []⟩) := by
  rw [hand, h]

theorem hand_of_cons {id : Nat} {waiting : List Nat} (item : V) (s : Store V)
    (h : q.waiting = id :: waiting) :
    q.hand item s = (s.setCell id (.ofSlot ⟨some item, .provided⟩), ⟨q.items, waiting⟩) := by
  rw [hand, h]

/-- Who is first in line after the stale waiters were forgotten gets the item, in both queues. -/
theorem push_eq_hand (hs : s.Coherent) (item : V) (hunset : ∀ id ∈ q.waiting, s.Unset id)
    (halike : s.Alike P t) (hP : ∀ id, P id → s.hasConsumers id = true ∨ id ∉ q.waiting)
    (hwants : ∀ id ∈ q.waiting, (q.push item s).1.wants id = true → s.wants id = true) :
    (q.push item s).1.Alike P ((q.forget s).hand item t).1 ∧
      ((q.forget s).hand item t).2.forget (q.push item s).1 =
        (q.push item s).2.forget (q.push item s).1 := by
  have hframe (id : Nat) (hid : id ∉ q.waiting) := cell_push_of_notMem hs item hid
  rcases push_cases hs item q with
    ⟨s', hforgets, hstale, hpush⟩ |
    ⟨stale, first, rest, s', hwaiting, hstale, hfirst, hforgets, hpush⟩
  · have hnone : (q.forget s).waiting = [] := filter_wants_of_stale hunset hstale
    rw [hpush] at hframe ⊢
    rw [hand_of_nil item t hnone]
    refine ⟨halike.forgets hforgets fun id hid => ?_, rfl⟩
    exact (hP id hid).elim hforgets.cell_eq_of_hasConsumers (hframe id)
  · rw [hwaiting, List.forall_mem_append, List.forall_mem_cons] at hunset hwants
    obtain ⟨hunsetStale, hunsetFirst, -⟩ := hunset
    have hnext : (q.forget s).waiting = first :: rest.filter s.wants := by
      have hwantsFirst : s.wants first = true := hunsetFirst.wants_eq.trans hfirst
      rw [forget, hwaiting, List.filter_append, filter_wants_of_stale hunsetStale hstale,
        List.nil_append, List.filter_cons_of_pos hwantsFirst]
    rw [hpush] at hframe hwants ⊢
    rw [hand_of_cons item t hnext]
    refine ⟨.setCell (halike.mono (fun _ => And.right) |>.forgets hforgets fun id hid => ?_) _, ?_⟩
    · refine (hP id hid.2).elim hforgets.cell_eq_of_hasConsumers fun hid' => ?_
      rw [← hframe id hid', Store.cell_setCell_of_ne hid.1]
    · exact forget_forget (q := ⟨q.items, rest⟩) hwants.2.2

theorem alike_popStore (halike : s.Alike P t) (name : String) :
    (popStore name s).Alike P (popStore name t) := by
  rw [popStore, popStore, halike.length_eq]
  exact halike.create.addHandle name _

theorem await_of_cons {item : V} {items : List V} (name : String) (s : Store V)
    (h : q.items = item :: items) :
    q.await name s =
      ((popStore name s).setCell s.cells.length (.ofSlot ⟨some item, .provided⟩),
        ⟨items, q.waiting⟩) := by
  rw [await, h]
  simp [popStore, Store.create, Store.addHandle, Store.dropHandle, Store.setCell]

theorem await_of_nil (name : String) (s : Store V) (h : q.items = []) :
    q.await name s = (popStore name s, ⟨[], q.waiting ++ [s.cells.length]⟩) := by
  rw [await, h]
  rfl

/-- Who finds no item joins the line, in both queues. The new handle may take the name of the last
one on a result that waits, so it is the store after the pop that tells who still wants an item. -/
theorem pop_eq_await (hs : s.Coherent) (name : String) (hq : q.Sound s)
    (hunset : ∀ id ∈ q.waiting, s.Unset id) (halike : s.Alike P t)
    (hP : ∀ id, P id → (q.pop name s).1.hasConsumers id = true ∨ id ∉ q.waiting)
    (hwants : ∀ id ∈ q.waiting, (q.pop name s).1.wants id = true → s.wants id = true) :
    (q.pop name s).1.Alike P ((q.forget s).await name t).1 ∧
      ((q.forget s).await name t).2.forget (q.pop name s).1 =
        (q.pop name s).2.forget (q.pop name s).1 := by
  have hpopStore := alike_popStore halike name
  cases hitems : q.items with
  | cons item items =>
    have hwaiting := hq.waiting_eq_nil hitems
    rw [await_of_cons name t (q := q.forget s) hitems, pop_of_cons name s hitems, halike.length_eq]
    refine ⟨.setCell (hpopStore.mono fun _ => And.right) _, ?_⟩
    rw [forget, forget, forget, hwaiting]
    rfl
  | nil =>
    obtain ⟨s', hforgets, hpop⟩ := pop_of_nil hs name hitems
    have hstore := store_pop_of_nil (s := s) name hitems
    have hstays (id : Nat) (hid : id ∈ q.waiting) (h : s'.wants id = true) :
        isWaiting (popStore name s) id = true := by
      have hunset' : (popStore name s).Unset id := by
        rw [Store.Unset, cell_popStore]
        exact hunset id hid
      rw [← hunset'.wants_eq]
      exact Store.wants_of_forgets hforgets h
    rw [await_of_nil name t (q := q.forget s) hitems]
    rw [hpop] at hP hwants hstore ⊢
    constructor
    · refine hpopStore.forgets hforgets fun id hid => ?_
      rcases hP id hid with hhas | hnotMem
      · rw [hforgets.hasConsumers_eq] at hhas
        exact hforgets.cell_eq_of_hasConsumers hhas
      · rw [show s' = _ from hstore]
        exact Store.cell_foldl_of_notMem fun h => hnotMem (List.mem_filter.mp h).1
    · have hkept : (q.waiting.filter s.wants).filter s'.wants =
          (q.waiting.filter (isWaiting (popStore name s))).filter s'.wants := by
        rw [List.filter_filter, List.filter_filter]
        refine List.filter_congr fun id hid => ?_
        cases h : s'.wants id with
        | true => rw [hwants id hid h, hstays id hid h]
        | false => rw [Bool.false_and, Bool.false_and]
      rw [forget, forget, forget, List.filter_append, List.filter_append, hkept, halike.length_eq]

theorem handles_close (s : Store V) (q : Queue V) :
    (q.close s).handles = s.handles ∧ (q.close s).away = s.away := by
  obtain ⟨items, waiting⟩ := q
  induction waiting generalizing s with
  | nil => exact ⟨rfl, rfl⟩
  | cons id waiting ih => exact ih (s.dropProvider id)

theorem hasConsumers_pop (hs : s.Coherent) (name : String) (q : Queue V) :
    (q.pop name s).1.hasConsumers s.cells.length = true := by
  have hhas : (popStore name s).hasConsumers s.cells.length = true :=
    Store.hasConsumers_addHandle name _
  cases hitems : q.items with
  | cons item items =>
    rw [pop_of_cons name s hitems]
    exact hhas
  | nil =>
    obtain ⟨s', hforgets, hpop⟩ := pop_of_nil hs name hitems
    rw [hpop, hforgets.hasConsumers_eq]
    exact hhas

/-- When a queue goes, whoever still has a handle is in line in both queues, or has cancelled. -/
theorem alike_close (hs : s.Coherent) (hq : q.Sound s) (halike : s.Alike P t)
    (hP : ∀ id, P id → s.hasConsumers id = true ∨ id ∉ q.waiting) :
    (q.close s).Alike P ((q.forget s).close t) where
  handles_eq := by rw [(handles_close _ _).1, (handles_close _ _).1, halike.handles_eq]
  away_eq := by rw [(handles_close _ _).2, (handles_close _ _).2, halike.away_eq]
  length_eq := by
    rw [close, close, length_foldl_dropProvider, length_foldl_dropProvider, halike.length_eq]
  cell_eq id hid := by
    rw [close, close]
    by_cases hmem : id ∈ q.waiting
    · have hhas := (hP id hid).resolve_right fun h => h hmem
      have hlt := hq.waiting_lt id hmem
      have hlt' : id < t.cells.length := by rwa [halike.length_eq]
      rw [Store.cell_foldl_of_mem hmem hlt]
      by_cases hwants : s.wants id = true
      · have hline : id ∈ (q.forget s).waiting := List.mem_filter.mpr ⟨hmem, hwants⟩
        rw [Store.cell_foldl_of_mem hline hlt', halike.cell_eq id hid]
      · -- Whoever has a handle and wants no item has cancelled, so that nothing is left to cancel.
        have hline : id ∉ (q.forget s).waiting := fun h => hwants (List.mem_filter.mp h).2
        have hfinal : (s.cell id).state.isFinal = true := by
          have hcancelled : (s.cell id).state = .cancelled := by
            by_contra hstate
            exact hwants (Store.wants_iff.mpr ⟨hstate, hhas⟩)
          rw [hcancelled]
          rfl
        rw [Store.cell_foldl_of_notMem hline, halike.cell_eq id hid, (hs id).cancel_of_final hfinal]
    · have hline : id ∉ (q.forget s).waiting := fun h => hmem (List.mem_filter.mp h).1
      rw [Store.cell_foldl_of_notMem hmem, Store.cell_foldl_of_notMem hline, halike.cell_eq id hid]

end Queue

end WireForm.Sync
