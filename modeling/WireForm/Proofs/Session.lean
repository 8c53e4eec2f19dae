import WireForm.Proofs.Queue
import WireForm.Sync.Session

/-!
# What a call does to a session

Most calls are about a provider or a consumer. They change one result, or some handles, and leave
the queues alone; whatever they are, the results evolve. Calls about a queue change that queue and
no other.

So a session stays sound: its results are coherent, and its queues are queues of results that there
are.

## Main definitions

* `Action.queue?` — the queue that a call is about
* `Session.Sound` — the invariant of sessions
* `Session.Proceeds`, `Session.Touches` — what calls about no queue and about a queue may change

## Main results

* `Session.proceeds_perform`, `Session.touches_perform` — what they do change
* `Session.evolves_perform`, `Session.lookup_perform` — the results, and the queues of other names
* `Session.Sound.perform`, `Session.Sound.run` — the invariant, for a call and for a run
-/

namespace WireForm.Sync

variable {V : Type}

/-- The queue that a call is about, if it is about one. -/
def Action.queue? : Action V → Option String
  | .queue name | .push name _ | .pop name _ | .tryPop name | .length name | .dropQueue name =>
    some name
  | _ => none

namespace Session

variable {s s' s'' : Session V} {name other : String}

/-! ### Entries by name -/

section Entries

universe u

variable {β : Type} {γ : Type u} {entries : List (String × β)} {items : List (String × γ)}

theorem lookup_filter_self : (items.filter (·.1 != name)).lookup name = none := by
  rw [List.lookup_eq_none_iff]
  intro entry hentry
  rw [bne_comm]
  exact (List.mem_filter.mp hentry).2

theorem lookup_filter_of_ne (h : other ≠ name) :
    (items.filter (·.1 != name)).lookup other = items.lookup other := by
  induction items with
  | nil => rfl
  | cons entry items ih =>
    obtain ⟨first, b⟩ := entry
    by_cases hfirst : first = name
    · have hother : (other == first) = false := by simpa [hfirst] using h
      rw [List.filter_cons_of_neg (by simpa using hfirst), ih, List.lookup_cons, hother]
    · rw [List.filter_cons_of_pos (by simpa using hfirst), List.lookup_cons, List.lookup_cons, ih]

theorem lookup_put_self (b : β) : (put name b entries).lookup name = some b := List.lookup_cons_self

theorem lookup_put_of_ne (b : β) (h : other ≠ name) :
    (put name b entries).lookup other = entries.lookup other := by
  rw [put, List.lookup_cons, beq_false_of_ne h, lookup_filter_of_ne h]

end Entries

/-! ### Calls about no queue -/

/-- The results evolve, and the queues are as they were. -/
structure Proceeds (s s' : Session V) : Prop where
  /-- The results evolve. -/
  evolves : s.store.Evolves s'.store
  /-- The queues are the same. -/
  queues_eq : s'.queues = s.queues

namespace Proceeds

theorem refl (s : Session V) : s.Proceeds s := ⟨Store.Evolves.refl _, rfl⟩

theorem trans (h : s.Proceeds s') (h' : s'.Proceeds s'') : s.Proceeds s'' :=
  ⟨h.evolves.trans h'.evolves, h'.queues_eq.trans h.queues_eq⟩

theorem setCell {id : Nat} {c : Cell V} (h : (s.store.cell id).Evolves c) :
    s.Proceeds (s.setCell id c) := ⟨.setCell h, rfl⟩

theorem withProvider {f : Nat → Cell V → Reply V × Session V}
    (h : ∀ id, s.Proceeds (f id (s.store.cell id)).2) : s.Proceeds (s.withProvider name f).2 := by
  rw [Session.withProvider]
  split
  · exact h _
  · exact refl s

theorem withConsumer {f : Handle V → Reply V × Session V} (h : ∀ handle, s.Proceeds (f handle).2) :
    s.Proceeds (s.withConsumer name f).2 := by
  rw [Session.withConsumer]
  split
  · exact h _
  · exact refl s

theorem retrieve {α β : Type} {id : Nat} {r : Retrieval V β} {outcome : Outcome α}
    {answer : α → Reply V} (h : (s.store.cell id).Evolves r.cell) :
    s.Proceeds (s.retrieve id r outcome answer).2 := ⟨.setCell h, rfl⟩

/-- A call that waits and looks at nothing. -/
theorem waited (r : Option Bool) (answer : Bool → Reply V) :
    s.Proceeds (match r with
      | some b => (answer b, s)
      | none => (.blocked, s)).2 := by
  cases r <;> exact refl s

/-- A call that settles the result and then retrieves the value, unless it waits for ever. -/
theorem settled {id : Nat} {r : Option (Retrieval V V)}
    (h : ∀ r', r = some r' → (s.store.cell id).Evolves r'.cell) :
    s.Proceeds (match r with
      | some r => s.retrieve id r (r.settled .direct) settledReply
      | none => (.blocked, s)).2 := by
  cases r with
  | none => exact refl s
  | some r => exact retrieve (h r rfl)

end Proceeds

theorem proceeds_dropProvider (s : Session V) (name : String) :
    s.Proceeds (s.dropProvider name) := by
  rw [dropProvider]
  split
  · exact ⟨Store.evolves_dropProvider _ _, rfl⟩
  · exact Proceeds.refl s

/-- The calls that touch no value go to the result, whatever the chain. -/
theorem call_eq (s : Session V) (h : Handle V) (call : Call) :
    s.call h call = s.callThrough .direct h call := by
  rw [Session.call, Chain.control_eq]

/-- Whatever a consumer calls, through whichever transforms. -/
theorem proceeds_call (s : Session V) (h : Handle V) (call : Call) :
    s.Proceeds (s.call h call).2 := by
  rw [call_eq]
  cases call with
  | wait => exact .waited _ _
  | waitFinal => exact .waited _ _
  | waitFor p => exact .waited _ _
  | waitFinalFor p => exact .waited _ _
  | cancelAfter p =>
    rw [callThrough]
    split
    · rename_i hcancel
      exact .setCell (Cell.evolves_cancelAfter _ hcancel)
    · exact Proceeds.refl s
  | cancel => exact .setCell (Cell.evolves_cancel _)
  | tryGet => exact .retrieve (by rw [Chain.cell_get]; exact Cell.Evolves.refl _)
  | tryTake => exact .retrieve (by rw [Chain.cell_take]; exact Cell.evolves_take _)
  | tryTakeFinal => exact .retrieve (by rw [Chain.cell_takeFinal]; exact Cell.evolves_takeFinal _)
  | getOrCancel =>
    refine .settled (r := some _) ?_
    rintro _ ⟨⟩
    rw [Chain.getOrCancel_eq, Chain.cell_get]
    exact Cell.evolves_cancel _
  | getOrCancelAfter p =>
    refine .settled fun r hr => ?_
    rw [Chain.getOrCancelAfter_eq] at hr
    obtain ⟨⟨inTime, c⟩, hcancel, rfl⟩ := Option.map_eq_some_iff.mp hr
    rw [Chain.cell_get]
    exact Cell.evolves_cancelAfter _ hcancel
  | takeOrCancelAfter p =>
    refine .settled fun r hr => ?_
    rw [Chain.takeOrCancelAfter_eq] at hr
    obtain ⟨⟨inTime, c⟩, hcancel, rfl⟩ := Option.map_eq_some_iff.mp hr
    rw [Chain.cell_takeFinal]
    exact (Cell.evolves_cancelAfter _ hcancel).trans (Cell.evolves_takeFinal _)

theorem proceeds_perform {a : Action V} (h : a.queue? = none) : s.Proceeds (s.perform a).2 := by
  cases a with
  | provider name =>
    exact (proceeds_dropProvider s name).trans ⟨Store.evolves_create, rfl⟩
  | consumer provider name => exact .withProvider fun _ => ⟨.of_cells_eq rfl, rfl⟩
  | dropProvider name => exact .withProvider fun _ => proceeds_dropProvider s name
  | dropConsumer name => exact .withConsumer fun _ => ⟨.of_cells_eq rfl, rfl⟩
  | clone consumer name => exact .withConsumer fun _ => ⟨.of_cells_eq rfl, rfl⟩
  | map owned f consumer name => exact .withConsumer fun _ => ⟨.of_cells_eq rfl, rfl⟩
  | countCalls => exact Proceeds.refl s
  | provide provider value => exact .withProvider fun _ => .setCell (Cell.evolves_provide _ value)
  | tryProvide provider value =>
    exact .withProvider fun _ => .setCell (Cell.evolves_provide _ value)
  | update provider value => exact .withProvider fun _ => .setCell (Cell.evolves_update _ value)
  | produce provider produced isFinal =>
    exact .withProvider fun _ => .setCell (Cell.evolves_produce _ produced isFinal)
  | cancelProvider provider => exact .withProvider fun _ => .setCell (Cell.evolves_cancel _)
  | providerState provider => exact .withProvider fun _ => Proceeds.refl s
  | consumerState consumer => exact .withConsumer fun _ => Proceeds.refl s
  | call consumer call => exact .withConsumer fun h => proceeds_call s h call
  | spawn consumer call =>
    exact .withConsumer fun _ => ⟨.of_cells_eq (Store.cells_sendAway consumer), rfl⟩
  | join consumer =>
    rw [perform]
    split
    · rename_i handle call _ _
      exact (proceeds_call s handle call).trans
        ⟨.of_cells_eq (Store.cells_bringBack consumer), rfl⟩
    · exact Proceeds.refl s
  | queue name => cases h
  | push queue value => cases h
  | pop queue name => cases h
  | tryPop queue => cases h
  | length queue => cases h
  | dropQueue queue => cases h

/-! ### Calls about a queue -/

/-- The invariant of sessions. -/
structure Sound (s : Session V) : Prop where
  /-- All results are coherent. -/
  coherent : s.store.Coherent
  /-- All queues are sound. -/
  queue : ∀ name q, s.queues.lookup name = some q → q.Sound s.store

theorem sound_start : (start : Session V).Sound := ⟨Store.coherent_empty, nofun⟩

theorem Sound.proceeds (hs : s.Sound) (h : s.Proceeds s') : s'.Sound where
  coherent := h.evolves.coherent hs.coherent
  queue name q hq := by
    rw [h.queues_eq] at hq
    exact (hs.queue name q hq).mono h.evolves

/-- The results evolve, no other queue changes, and the one of this name, if it is still there, is
sound. -/
structure Touches (name : String) (s s' : Session V) : Prop where
  /-- The results evolve. -/
  evolves : s.store.Evolves s'.store
  /-- Queues of other names are the same. -/
  lookup_of_ne : ∀ other, other ≠ name → s'.queues.lookup other = s.queues.lookup other
  /-- The queue of this name is sound. -/
  sound : ∀ q, s'.queues.lookup name = some q → q.Sound s'.store

namespace Touches

theorem refl (hs : s.Sound) (name : String) : Touches name s s :=
  ⟨Store.Evolves.refl _, fun _ _ => rfl, hs.queue name⟩

/-- A queue is replaced by another. -/
theorem put {store : Store V} {q : Queue V} (hstore : s.store.Evolves store) (hq : q.Sound store) :
    Touches name s { s with store := store, queues := put name q s.queues } where
  evolves := hstore
  lookup_of_ne _ hother := lookup_put_of_ne q hother
  sound q' hq' := by
    obtain rfl : q = q' := Option.some.inj ((lookup_put_self q).symm.trans hq')
    exact hq

theorem withQueue (hs : s.Sound) {f : Queue V → Reply V × Session V}
    (h : ∀ q, q.Sound s.store → Touches name s (f q).2) :
    Touches name s (s.withQueue name f).2 := by
  rw [Session.withQueue]
  split
  · rename_i q hq
    exact h q (hs.queue name q hq)
  · exact refl hs name

end Touches

theorem touches_dropQueue (hs : s.Sound) (name : String) : Touches name s (s.dropQueue name) := by
  rw [dropQueue]
  split
  · refine ⟨Queue.evolves_close _ _, fun other hother => lookup_filter_of_ne hother, fun q hq => ?_⟩
    rw [lookup_filter_self] at hq
    cases hq
  · exact Touches.refl hs name

theorem touches_perform (hs : s.Sound) {a : Action V} (h : a.queue? = some name) :
    Touches name s (s.perform a).2 := by
  cases a with
  | queue name' =>
    obtain rfl : name' = name := Option.some.inj h
    have hdrop := touches_dropQueue hs name'
    refine ⟨hdrop.evolves, fun other hother => ?_, fun q hq => ?_⟩
    · exact (lookup_put_of_ne _ hother).trans (hdrop.lookup_of_ne other hother)
    · obtain rfl : Queue.empty = q := Option.some.inj ((lookup_put_self _).symm.trans hq)
      exact Queue.Sound.empty _
  | push name' item =>
    obtain rfl : name' = name := Option.some.inj h
    exact .withQueue hs fun q hq =>
      .put (Queue.evolves_push hs.coherent item q) (hq.push hs.coherent item)
  | pop name' consumer =>
    obtain rfl : name' = name := Option.some.inj h
    exact .withQueue hs fun q hq =>
      .put (Queue.evolves_pop hs.coherent consumer q) (hq.pop hs.coherent consumer)
  | tryPop name' =>
    obtain rfl : name' = name := Option.some.inj h
    exact .withQueue hs fun q hq => .put (Store.Evolves.refl _) hq.tryPop
  | length name' =>
    obtain rfl : name' = name := Option.some.inj h
    exact .withQueue hs fun q hq => .refl hs _
  | dropQueue name' =>
    obtain rfl : name' = name := Option.some.inj h
    exact .withQueue hs fun q hq => touches_dropQueue hs _
  | _ => cases h

/-- The answer to an offer, by the value that is given back. -/
def offered : Option V → Reply V
  | some v => .returned v
  | none => .done

theorem perform_tryProvide (s : Session V) (name : String) (v : V) :
    s.perform (.tryProvide name v) = s.withProvider name fun id c =>
      (offered (c.provide v).1, s.setCell id (c.provide v).2) := rfl

section Found

variable {q : Queue V}

theorem withQueue_of_some (h : s.queues.lookup name = some q) (f : Queue V → Reply V × Session V) :
    s.withQueue name f = f q := by
  rw [withQueue, h]

theorem withQueue_of_none (h : s.queues.lookup name = none) (f : Queue V → Reply V × Session V) :
    s.withQueue name f = (.unknown name, s) := by
  rw [withQueue, h]

theorem perform_push (h : s.queues.lookup name = some q) (item : V) :
    s.perform (.push name item) =
      (.done, { s with
        store := (q.push item s.store).1
        queues := put name (q.push item s.store).2 s.queues }) :=
  withQueue_of_some h _

theorem perform_pop (h : s.queues.lookup name = some q) (consumer : String) :
    s.perform (.pop name consumer) =
      (.popped ((q.pop consumer s.store).1.cell s.store.cells.length).state, { s with
        store := (q.pop consumer s.store).1
        queues := put name (q.pop consumer s.store).2 s.queues }) :=
  withQueue_of_some h _

theorem perform_tryPop (h : s.queues.lookup name = some q) :
    s.perform (.tryPop name) =
      (.value q.tryPop.1, { s with queues := put name q.tryPop.2 s.queues }) :=
  withQueue_of_some h _

theorem perform_length (h : s.queues.lookup name = some q) :
    s.perform (.length name) = (.length q.items.length, s) :=
  withQueue_of_some h _

end Found

/-! ### All calls -/

/-- Whatever is called, the results evolve. -/
theorem evolves_perform (hs : s.Sound) (a : Action V) : s.store.Evolves (s.perform a).2.store := by
  cases hqueue : a.queue? with
  | none => exact (proceeds_perform hqueue).evolves
  | some name => exact (touches_perform hs hqueue).evolves

/-- A call leaves every queue alone that it is not about. -/
theorem lookup_perform (hs : s.Sound) {a : Action V} (h : a.queue? ≠ some name) :
    (s.perform a).2.queues.lookup name = s.queues.lookup name := by
  cases hqueue : a.queue? with
  | none => rw [(proceeds_perform hqueue).queues_eq]
  | some about =>
    refine (touches_perform hs hqueue).lookup_of_ne name ?_
    rintro rfl
    exact h hqueue

/-- **A call keeps a session sound.** -/
theorem Sound.perform (hs : s.Sound) (a : Action V) : (s.perform a).2.Sound := by
  cases hqueue : a.queue? with
  | none => exact hs.proceeds (proceeds_perform hqueue)
  | some about =>
    have htouches := touches_perform hs hqueue
    refine ⟨htouches.evolves.coherent hs.coherent, fun name q hq => ?_⟩
    by_cases hname : name = about
    · subst hname
      exact htouches.sound q hq
    · rw [htouches.lookup_of_ne name hname] at hq
      exact (hs.queue name q hq).mono htouches.evolves

theorem run_cons (s : Session V) (a : Action V) (actions : List (Action V)) :
    (s.run (a :: actions)).2 = ((s.perform a).2.run actions).2 := rfl

theorem run_append (s : Session V) (actions actions' : List (Action V)) :
    (s.run (actions ++ actions')).2 = ((s.run actions).2.run actions').2 := by
  induction actions generalizing s with
  | nil => rfl
  | cons a actions ih => rw [List.cons_append, run_cons, ih, run_cons]

/-- **A run keeps a session sound.** -/
theorem Sound.run (hs : s.Sound) (actions : List (Action V)) : (s.run actions).2.Sound := by
  induction actions generalizing s with
  | nil => exact hs
  | cons a actions ih => exact ih (hs.perform a)

theorem evolves_run (hs : s.Sound) (actions : List (Action V)) :
    s.store.Evolves (s.run actions).2.store := by
  induction actions generalizing s with
  | nil => exact Store.Evolves.refl _
  | cons a actions ih => exact (evolves_perform hs a).trans (ih (hs.perform a))

end Session

end WireForm.Sync
