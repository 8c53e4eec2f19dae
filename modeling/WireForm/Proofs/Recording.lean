import WireForm.Proofs.Answers
import WireForm.Proofs.Delivery
import WireForm.Proofs.Ownership

/-!
# What happens to results

Every call is about one result, about a queue, or about none. In the first case its answer tells
what happened to that result, and nothing happened to any other. The answers of a queue do not tell
which results it has served or forgotten, so they are looked at before and after: at each of them an
item was handed over, or its provider has gone, or it is the same.

What is told in this way is all that happens. Put together over a run it makes every result what it
is.

## Main definitions

* `Session.subject?` — the result that a call is about
* `Session.event?`, `Session.history` — what happens to a result at a call, and in a run
* `Cell.Handed` — what a queue may do to a result

## Main results

* `Session.records_perform` — a call, and every result
* `Session.records_run`, `Session.records_start` — a run, and every result
-/

namespace WireForm.Sync

variable {V : Type}

/-! ### Histories of results -/

/-- What a queue has made of a result that was `c` and is `c'`: it has provided it with an item, or
its provider has gone. -/
def Cell.change? (c c' : Cell V) : Option (Event V) :=
  if c.state.isFinal then none
  else match c'.state, c'.get with
    | .provided, some v => some (.set v true)
    | .cancelled, _ => some .cancelled
    | _, _ => none

namespace Session

/-- The result that a call on a provider or a consumer is about. -/
def subject? (s : Session V) : Action V → Option Nat
  | .provider name | .dropProvider name | .provide name _ | .tryProvide name _ | .update name _
  | .produce name _ _ | .cancelProvider name => s.providers.lookup name
  | .call name _ => (s.store.handles.lookup name).map (·.cell)
  | .join name => (s.store.away.lookup name).map (·.cell)
  | _ => none

/-- What happens to a result at a call: what the answer tells, if the call is about the result. A
queue's answers do not tell which results it has served or forgotten. -/
def event? (id : Nat) (s : Session V) (a : Action V) : Option (Event V) :=
  match a.queue? with
  | some _ => (s.store.cell id).change? ((s.perform a).2.store.cell id)
  | none =>
    if s.subject? a = some id then
      a.event? s.spawned (s.store.cell id).state (s.perform a).1
    else none

/-- What happens to a result in a run. -/
def history (id : Nat) (s : Session V) (actions : List (Action V)) : List (Event V) :=
  collect (fun s a => (s.event? id a).toList) s actions

end Session

namespace Session

variable {s : Session V} {name : String} {id : Nat} {a : Action V}

/-! ### Calls on providers and consumers -/

section Providers

variable {event : Reply V → Option (Event V)}

theorem records_withProvider {f : Nat → Cell V → Reply V × Session V}
    (hself : s.providers.lookup name = some id →
      (s.store.cell id).slot.value.Records
        ((f id (s.store.cell id)).2.store.cell id).slot.value (event (f id (s.store.cell id)).1))
    (hother : ∀ j, j ≠ id → (f j (s.store.cell j)).2.store.cell id = s.store.cell id) :
    (s.store.cell id).slot.value.Records ((s.withProvider name f).2.store.cell id).slot.value
      (if s.providers.lookup name = some id then event (s.withProvider name f).1 else none) := by
  rw [withProvider]
  cases hname : s.providers.lookup name with
  | none => exact Slot.Records.refl _
  | some j =>
    by_cases hj : j = id
    · subst hj
      rw [if_pos rfl]
      exact hself hname
    · rw [if_neg (mt Option.some.inj hj)]
      dsimp only
      rw [hother j hj]
      exact Slot.Records.refl _

/-- A call on a provider that answers with, and makes of the result, what the result decides. -/
theorem records_provider (hs : s.Sound) (ho : s.Owned) (reply : Cell V → Reply V)
    (after : Cell V → Cell V)
    (h : ∀ c : Cell V, c.Coherent → c.slot.value.Records (after c).slot.value (event (reply c))) :
    (s.store.cell id).slot.value.Records
      ((s.withProvider name fun id c =>
        (reply c, s.setCell id (after c))).2.store.cell id).slot.value
      (if s.providers.lookup name = some id then
        event (s.withProvider name fun id c => (reply c, s.setCell id (after c))).1
      else none) := by
  refine records_withProvider (fun hname => ?_) fun j hj => Store.cell_setCell_of_ne hj.symm
  dsimp only [setCell]
  rw [Store.cell_setCell_self (ho.providers_lt name id hname)]
  exact h _ (hs.coherent id)

end Providers

/-- A provider that goes away has its result cancelled, if that is not final. -/
theorem records_dropProvider (hs : s.Sound) (ho : s.Owned) (name : String) :
    (s.store.cell id).slot.value.Records ((s.dropProvider name).store.cell id).slot.value
      (if s.providers.lookup name = some id then
        if (s.store.cell id).state.isFinal then none else some .cancelled
      else none) := by
  rw [dropProvider]
  cases hname : s.providers.lookup name with
  | none => exact Slot.Records.refl _
  | some j =>
    by_cases hj : j = id
    · subst hj
      rw [if_pos rfl]
      dsimp only [Store.dropProvider]
      rw [Store.cell_setCell_self (ho.providers_lt name j hname)]
      have hrecords := records_cancel (hs.coherent j)
      rw [(hs.coherent j).cancel_fst] at hrecords
      cases hstate : (s.store.cell j).state.isFinal with
      | true =>
        rw [hstate] at hrecords
        exact hrecords
      | false =>
        rw [hstate] at hrecords
        exact hrecords
    · rw [if_neg (mt Option.some.inj hj)]
      dsimp only [Store.dropProvider]
      rw [Store.cell_setCell_of_ne (Ne.symm hj)]
      exact Slot.Records.refl _

/-- A call of a consumer leaves all results but its own alone. -/
theorem records_called (hs : s.Sound) {h : Handle V} (hid : h.cell < s.store.cells.length)
    (call : Call) (id : Nat) :
    (s.store.cell id).slot.value.Records ((s.call h call).2.store.cell id).slot.value
      (if h.cell = id then call.event? (s.store.cell id).state (s.call h call).1 else none) := by
  by_cases hcell : h.cell = id
  · subst hcell
    rw [if_pos rfl]
    exact records_call (hs.coherent h.cell) hid call
  · obtain ⟨reply, after, labels, hcall⟩ := concerns_call h call
    rw [if_neg hcell, show s.call h call = _ from hcall s]
    dsimp only
    rw [Store.cell_setCell_of_ne (Ne.symm hcell)]
    exact Slot.Records.refl _

theorem records_tryProvide (hs : s.Sound) (ho : s.Owned) (name : String) (v : V) :
    (s.store.cell id).slot.value.Records
      ((s.perform (.tryProvide name v)).2.store.cell id).slot.value
      (if s.providers.lookup name = some id then
        (Action.tryProvide name v).event? s.spawned (s.store.cell id).state
          (s.perform (.tryProvide name v)).1
      else none) := by
  rw [perform_tryProvide]
  refine records_provider hs ho (fun c => offered (c.provide v).1) (fun c => (c.provide v).2)
    fun c hc => ?_
  have hrecords := records_provide hc v
  cases hback : (c.provide v).1 with
  | none =>
    rw [hback] at hrecords
    exact hrecords
  | some v' =>
    rw [hback] at hrecords
    exact hrecords

/-- A call that ran on a thread tells what it would have told without one. -/
theorem records_join (hs : s.Sound) (ho : s.Owned) (name : String) :
    (s.store.cell id).slot.value.Records ((s.perform (.join name)).2.store.cell id).slot.value
      (if s.subject? (.join name) = some id then
        (Action.join name).event? s.spawned (s.store.cell id).state (s.perform (.join name)).1
      else none) := by
  cases haway : s.store.away.lookup name with
  | none =>
    simp only [perform, haway]
    split <;> exact Slot.Records.refl _
  | some h =>
    cases hspawned : s.spawned.lookup name with
    | none =>
      simp only [perform, haway, hspawned]
      split <;> exact Slot.Records.refl _
    | some call =>
      have hid := ho.consumers_lt h.cell (Store.hasConsumers_of_lookup haway (Or.inr rfl))
      simp only [perform, subject?, Action.event?, haway, hspawned, Option.map_some,
        Option.some.injEq, Option.bind_some, Store.cell_of_cells_eq (Store.cells_bringBack name)]
      exact records_called hs hid call id

theorem records_of_queue?_eq_none (hs : s.Sound) (ho : s.Owned) (h : a.queue? = none) :
    (s.store.cell id).slot.value.Records ((s.perform a).2.store.cell id).slot.value
      (if s.subject? a = some id then
        a.event? s.spawned (s.store.cell id).state (s.perform a).1
      else none) := by
  cases a with
  | provider name =>
    have hcell : (s.perform (.provider name)).2.store.cell id =
        (s.dropProvider name).store.cell id := Store.cell_create_fresh
    rw [hcell]
    exact records_dropProvider hs ho name
  | dropProvider name =>
    have hperform : (s.perform (.dropProvider name)).2 = s.dropProvider name := by
      rw [perform, withProvider, dropProvider]
      cases s.providers.lookup name <;> rfl
    rw [hperform]
    exact records_dropProvider hs ho name
  | provide name v =>
    exact records_provider hs ho (fun c => .flag (c.provide v).1.isNone) (fun c => (c.provide v).2)
      fun c hc => records_provide hc v
  | tryProvide name v => exact records_tryProvide hs ho name v
  | update name v =>
    exact records_provider hs ho (fun c => .flag (c.update v).1) (fun c => (c.update v).2)
      fun c hc => records_update hc v
  | produce name produced isFinal =>
    exact records_provider hs ho
      (fun c => .produced (c.produce produced isFinal).1.1 (c.produce produced isFinal).1.2)
      (fun c => (c.produce produced isFinal).2) fun c hc => records_produce hc produced isFinal
  | cancelProvider name =>
    exact records_provider hs ho (fun c => .flag c.cancel.1) (fun c => c.cancel.2)
      fun c hc => records_cancel hc
  | call name call =>
    show Slot.Records _ ((s.withConsumer name fun h => s.call h call).2.store.cell id).slot.value
      (if (s.store.handles.lookup name).map (·.cell) = some id then
        call.event? _ (s.withConsumer name fun h => s.call h call).1
      else none)
    rw [withConsumer]
    cases hname : s.store.handles.lookup name with
    | none => exact Slot.Records.refl _
    | some h =>
      have hid := ho.consumers_lt h.cell (Store.hasConsumers_of_lookup hname (Or.inl rfl))
      simp only [Option.map_some, Option.some.injEq]
      exact records_called hs hid call id
  | join name => exact records_join hs ho name
  | consumer provider name =>
    rw [perform, withProvider]
    split <;> exact Slot.Records.refl _
  | clone consumer name =>
    rw [perform, withConsumer]
    split <;> exact Slot.Records.refl _
  | dropConsumer name =>
    rw [perform, withConsumer]
    split <;> exact Slot.Records.refl _
  | map owned f consumer name =>
    rw [perform, withConsumer]
    split <;> exact Slot.Records.refl _
  | spawn consumer call =>
    rw [perform, withConsumer]
    split
    · dsimp only
      rw [Store.cell_of_cells_eq (Store.cells_sendAway consumer)]
      exact Slot.Records.refl _
    · exact Slot.Records.refl _
  | countCalls => exact Slot.Records.refl _
  | providerState name =>
    rw [perform, withProvider]
    split <;> exact Slot.Records.refl _
  | consumerState name =>
    rw [perform, withConsumer]
    split <;> exact Slot.Records.refl _
  | _ => cases h

end Session

/-! ### Calls about queues -/

/-- What a queue may do to a result: nothing, let its provider go, or hand it an item. -/
def Cell.Handed (c c' : Cell V) : Prop :=
  c' = c ∨ c' = c.cancel.2 ∨ c.state.isFinal = false ∧ ∃ v, c' = .ofSlot ⟨some v, .provided⟩

theorem records_change {c c' : Cell V} (hc : c.Coherent) (h : c.Handed c') :
    c.slot.value.Records c'.slot.value (c.change? c') := by
  have hself : c.change? c = none := by
    cases hstate : c.state with
    | provided => simp [Cell.change?, hstate, State.isFinal]
    | cancelled => simp [Cell.change?, hstate, State.isFinal]
    | undecided => simp [Cell.change?, hstate]
    | partiallyProvided => simp [Cell.change?, hstate]
  rcases h with rfl | rfl | ⟨hpending, v, rfl⟩
  · rw [hself]
    exact Slot.Records.refl _
  · cases hstate : c.state.isFinal with
    | true =>
      rw [hc.cancel_of_final hstate, hself]
      exact Slot.Records.refl _
    | false =>
      rw [hc.cancel_of_pending hstate, Cell.change?, hstate]
      exact Slot.Records.of_admits (e := .cancelled) hstate
  · rw [Cell.change?, hpending]
    exact Slot.Records.of_admits (e := .set v true) hpending

theorem Store.Forgets.handed {s s' : Store V} (h : s.Forgets s') (id : Nat) :
    (s.cell id).Handed (s'.cell id) := (h.cell_eq id).imp_right fun hgone => Or.inl hgone.2

namespace Queue

variable {s : Store V}

theorem handed_push (hs : s.Coherent) (item : V) {q : Queue V} (hq : q.Sound s) (id : Nat) :
    (s.cell id).Handed ((q.push item s).1.cell id) := by
  rcases push_cases hs item q with
    ⟨s', hforgets, -, hpush⟩ | ⟨stale, first, rest, s', hwaiting, -, hfirst, hforgets, hpush⟩
  · rw [hpush]
    exact hforgets.handed id
  · rw [hpush]
    by_cases hid : id = first
    · subst hid
      have hlt : id < s'.cells.length := by
        rw [hforgets.length_eq]
        exact hq.waiting_lt id (by simp [hwaiting])
      exact Or.inr (Or.inr ⟨(isWaiting_iff.mp hfirst).1, item, Store.cell_setCell_self hlt⟩)
    · dsimp only
      rw [Store.cell_setCell_of_ne hid]
      exact hforgets.handed id

theorem handed_pop (hs : s.Coherent) (name : String) (q : Queue V) (id : Nat) :
    (s.cell id).Handed ((q.pop name s).1.cell id) := by
  cases hitems : q.items with
  | nil =>
    obtain ⟨s', hforgets, hpop⟩ := pop_of_nil hs name hitems
    rw [hpop, ← cell_popStore name]
    exact hforgets.handed id
  | cons item items =>
    rw [pop_of_cons name s hitems]
    by_cases hid : id = s.cells.length
    · subst hid
      have hlt : s.cells.length < (popStore name s).cells.length := by
        rw [length_popStore]
        exact Nat.lt_succ_self _
      have hpending : (s.cell s.cells.length).state.isFinal = false := by
        rw [Store.cell_of_le (Nat.le_refl _)]
        rfl
      exact Or.inr (Or.inr ⟨hpending, item, Store.cell_setCell_self hlt⟩)
    · dsimp only
      rw [Store.cell_setCell_of_ne hid, cell_popStore]
      exact Or.inl rfl

theorem handed_close {q : Queue V} (hq : q.Sound s) (id : Nat) :
    (s.cell id).Handed ((q.close s).cell id) := by
  by_cases hid : id ∈ q.waiting
  · exact Or.inr (Or.inl (Store.cell_foldl_of_mem hid (hq.waiting_lt id hid)))
  · exact Or.inl (Store.cell_foldl_of_notMem hid)

end Queue

namespace Session

variable {s : Session V} {name : String} {id : Nat} {a : Action V}

theorem handed_perform (hs : s.Sound) (h : a.queue? = some name) (id : Nat) :
    (s.store.cell id).Handed ((s.perform a).2.store.cell id) :=
  perform_queue (R := fun store _ => (s.store.cell id).Handed (store.cell id)) h (Or.inl rfl)
    (fun q item hq => Queue.handed_push hs.coherent item (hs.queue name q hq) id)
    (fun q consumer _ => Queue.handed_pop hs.coherent consumer q id)
    fun q hq => Queue.handed_close (hs.queue name q hq) id

/-! ### All calls -/

/-- **An answer tells just what happened**, to every result. -/
theorem records_perform (hs : s.Sound) (ho : s.Owned) (a : Action V) (id : Nat) :
    (s.store.cell id).slot.value.Records ((s.perform a).2.store.cell id).slot.value
      (s.event? id a) := by
  rw [event?]
  cases hqueue : a.queue? with
  | some name => exact records_change (hs.coherent id) (handed_perform hs hqueue id)
  | none => exact records_of_queue?_eq_none hs ho hqueue

theorem history_cons (id : Nat) (s : Session V) (a : Action V) (actions : List (Action V)) :
    s.history id (a :: actions) =
      (s.event? id a).toList ++ (s.perform a).2.history id actions := rfl

/-- **What the answers of a run told could happen, and makes the result what it is.** -/
theorem records_run (hs : s.Sound) (ho : s.Owned) (actions : List (Action V)) (id : Nat) :
    (s.store.cell id).slot.value.AdmitsAll (s.history id actions) ∧
      ((s.run actions).2.store.cell id).slot.value =
        (s.store.cell id).slot.value.replay (s.history id actions) := by
  induction actions generalizing s with
  | nil => exact ⟨trivial, rfl⟩
  | cons a actions ih =>
    obtain ⟨hadmits, hstep⟩ := records_perform hs ho a id
    obtain ⟨hrest, hrun⟩ := ih (hs.perform a) (ho.perform hs a)
    rw [history_cons, Slot.admitsAll_append, Slot.replay_append, run_cons, hrun]
    cases hevent : s.event? id a with
    | none =>
      rw [hevent] at hstep
      rw [hstep] at hrest ⊢
      exact ⟨⟨trivial, hrest⟩, rfl⟩
    | some e =>
      rw [hevent] at hadmits hstep
      rw [hstep] at hrest ⊢
      exact ⟨⟨⟨hadmits e rfl, trivial⟩, hrest⟩, rfl⟩

/-- From the start, when nothing is known of any result. -/
theorem records_start (actions : List (Action V)) (id : Nat) :
    Slot.blank.AdmitsAll (start.history id actions) ∧
      ((start.run actions).2.store.cell id).slot.value =
        Slot.blank.replay (start.history id actions) := by
  have hblank : (start.store.cell id : Cell V).slot.value = Slot.blank := by
    rw [Store.cell_of_le (Nat.zero_le id)]
    rfl
  rw [← hblank]
  exact records_run sound_start owned_start actions id

end Session

end WireForm.Sync
