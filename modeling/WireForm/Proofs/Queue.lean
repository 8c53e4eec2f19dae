import WireForm.Proofs.Store

/-!
# What queues do with waiting results

A waiting result is stale once it is final or no handle on it is left. Pushing passes over stale
results, popping forgets them, and in both cases their providers go away: a result that nobody can
look at any more is cancelled, and everything else is left as it was. So a push is described by the
oldest result that still waits, if there is one, and the stale results in front of it do not matter.

Between the two looks that a push takes at the handles of a result nothing happens to these, so
that an item, once it was taken, is never taken back.

## Main definitions

* `Store.Forgets` — all that is done is to cancel results without handles
* `Queue.Sound` — items and waiting results exclude each other

## Main results

* `Store.cell_foldl_of_mem`, `Store.cell_foldl_of_notMem` — results whose providers go away
* `Queue.serve_cons`, `Queue.serve_cases` — offering an item to waiting results
* `Queue.push_cases`, `Queue.pop_of_cons`, `Queue.pop_of_nil` — what the operations do
* `Queue.Sound.push`, `Queue.Sound.pop`, `Queue.Sound.tryPop` — they keep queues sound
-/

namespace WireForm.Sync

variable {V : Type} {s s' s'' : Store V} {id : Nat}

/-! ### Forgetting results -/

theorem Cell.cancel_cancel (c : Cell V) : c.cancel.2.cancel.2 = c.cancel.2 := by
  obtain ⟨⟨isOpen, slot⟩, decided⟩ := c
  cases isOpen <;> rfl

namespace Store

theorem cell_foldl_of_notMem {ids : List Nat} (h : id ∉ ids) :
    (ids.foldl (fun s id => s.dropProvider id) s).cell id = s.cell id := by
  induction ids generalizing s with
  | nil => rfl
  | cons first ids ih =>
    rw [List.mem_cons, not_or] at h
    exact (ih h.2).trans (cell_setCell_of_ne h.1)

/-- However often the provider of a result goes away, the result is cancelled once. -/
theorem cell_foldl_of_mem {ids : List Nat} (hmem : id ∈ ids) (hid : id < s.cells.length) :
    (ids.foldl (fun s id => s.dropProvider id) s).cell id = (s.cell id).cancel.2 := by
  induction ids generalizing s with
  | nil => cases hmem
  | cons first ids ih =>
    have hlt : id < (s.dropProvider first).cells.length := by rwa [dropProvider, length_setCell]
    rw [List.foldl_cons]
    by_cases hfirst : id = first
    · subst hfirst
      have hcell : (s.dropProvider id).cell id = (s.cell id).cancel.2 := cell_setCell_self hid
      by_cases hrest : id ∈ ids
      · rw [ih hrest hlt, hcell, Cell.cancel_cancel]
      · rw [cell_foldl_of_notMem hrest, hcell]
    · have hcell : (s.dropProvider first).cell id = s.cell id := cell_setCell_of_ne hfirst
      rw [ih ((List.mem_cons.mp hmem).resolve_left hfirst) hlt, hcell]

/-- Handles are as they were, and so are the results, save some that have no handles and were
cancelled. -/
structure Forgets (s s' : Store V) : Prop where
  /-- The live handles are the same. -/
  handles_eq : s'.handles = s.handles
  /-- So are those that are away. -/
  away_eq : s'.away = s.away
  /-- So is the number of results. -/
  length_eq : s'.cells.length = s.cells.length
  /-- A result is the same, or it was cancelled and nobody is left to see that. -/
  cell_eq : ∀ id, s'.cell id = s.cell id ∨
    s.hasConsumers id = false ∧ s'.cell id = (s.cell id).cancel.2

namespace Forgets

theorem refl (s : Store V) : s.Forgets s := ⟨rfl, rfl, rfl, fun _ => Or.inl rfl⟩

theorem hasConsumers_eq (h : s.Forgets s') (id : Nat) : s'.hasConsumers id = s.hasConsumers id := by
  rw [hasConsumers, h.handles_eq, h.away_eq, hasConsumers]

theorem trans (h : s.Forgets s') (h' : s'.Forgets s'') : s.Forgets s'' where
  handles_eq := h'.handles_eq.trans h.handles_eq
  away_eq := h'.away_eq.trans h.away_eq
  length_eq := h'.length_eq.trans h.length_eq
  cell_eq id := by
    rcases h'.cell_eq id with hcell' | ⟨hgone', hcell'⟩
    · rw [hcell']
      exact h.cell_eq id
    · rw [h.hasConsumers_eq] at hgone'
      refine Or.inr ⟨hgone', ?_⟩
      rcases h.cell_eq id with hcell | ⟨-, hcell⟩
      · rw [hcell', hcell]
      · rw [hcell', hcell, Cell.cancel_cancel]

theorem evolves (h : s.Forgets s') : s.Evolves s' := by
  refine ⟨Nat.le_of_eq h.length_eq.symm, fun id => ?_⟩
  rcases h.cell_eq id with hcell | ⟨-, hcell⟩
  · rw [hcell]
    exact Cell.Evolves.refl _
  · rw [hcell]
    exact (s.cell id).evolves_cancel

/-- A result that has handles is not forgotten. -/
theorem cell_eq_of_hasConsumers (h : s.Forgets s') (hid : s.hasConsumers id = true) :
    s'.cell id = s.cell id := by
  refine (h.cell_eq id).resolve_right fun hgone => ?_
  rw [hid] at hgone
  cases hgone.1

end Forgets

end Store

namespace Queue

variable {item : V} {waiting : List Nat} {q : Queue V}

theorem isWaiting_iff : isWaiting s id = true ↔
    (s.cell id).state.isFinal = false ∧ s.hasConsumers id = true := by
  rw [isWaiting, Bool.and_eq_true, Bool.not_eq_true']

theorem isWaiting_of_forgets (h : s.Forgets s') (id : Nat) : isWaiting s' id = isWaiting s id := by
  rw [isWaiting, isWaiting, h.hasConsumers_eq]
  rcases h.cell_eq id with hcell | ⟨hgone, -⟩
  · rw [hcell]
  · rw [hgone, Bool.and_false, Bool.and_false]

/-- The provider of a stale result goes away. If the result has handles it is final already, and
does not change. -/
theorem forgets_dropProvider (hs : s.Coherent) (hid : isWaiting s id = false) :
    s.Forgets (s.dropProvider id) := by
  refine ⟨rfl, rfl, Store.length_setCell, fun j => ?_⟩
  by_cases hj : j = id
  · subst hj
    cases hstate : (s.cell j).state.isFinal with
    | true =>
      have hsame : s.dropProvider j = s := by
        rw [Store.dropProvider, (hs j).cancel_of_final hstate, Store.setCell_cell]
      rw [hsame]
      exact Or.inl rfl
    | false =>
      have hgone : s.hasConsumers j = false := by simpa [isWaiting, hstate] using hid
      by_cases hlt : j < s.cells.length
      · exact Or.inr ⟨hgone, Store.cell_setCell_self hlt⟩
      · refine Or.inl ?_
        rw [Store.cell_of_le (Nat.not_lt.mp hlt), Store.cell_of_le]
        exact Nat.le_trans (Nat.le_of_eq Store.length_setCell) (Nat.not_lt.mp hlt)
  · exact Or.inl (Store.cell_setCell_of_ne hj)

theorem forgets_foldl (hs : s.Coherent) {ids : List Nat} (h : ∀ id ∈ ids, isWaiting s id = false) :
    s.Forgets (ids.foldl (fun s id => s.dropProvider id) s) := by
  induction ids generalizing s with
  | nil => exact Store.Forgets.refl s
  | cons id ids ih =>
    obtain ⟨hid, hids⟩ := List.forall_mem_cons.mp h
    have hforgets := forgets_dropProvider hs hid
    refine hforgets.trans (ih (hforgets.evolves.coherent hs) fun j hj => ?_)
    rw [isWaiting_of_forgets hforgets]
    exact hids j hj

/-! ### Pushing -/

/-- A result that still waits takes the item, and one that does not is as good as dropped. -/
theorem serve_cons (hs : s.Coherent) (item : V) (id : Nat) (waiting : List Nat) :
    serve item (id :: waiting) s =
      if isWaiting s id then ((.ok id, waiting), s.setCell id (.ofSlot ⟨some item, .provided⟩))
      else serve item waiting (s.dropProvider id) := by
  rw [serve, isWaiting]
  cases hgone : s.hasConsumers id with
  | false => simp
  | true =>
    cases hstate : (s.cell id).state.isFinal with
    | true =>
      rw [(hs id).provide_of_final hstate]
      simp [Store.setCell_cell]
    | false =>
      rw [(hs id).provide_of_pending hstate]
      simp [hgone]

/-- Offering an item either finds no result that still waits, or gives it to the oldest. -/
theorem serve_cases (hs : s.Coherent) (item : V) (waiting : List Nat) :
    (∃ s', s.Forgets s' ∧ (∀ id ∈ waiting, isWaiting s id = false) ∧
      serve item waiting s = ((.error item, []), s')) ∨
    ∃ stale id rest s', waiting = stale ++ id :: rest ∧ (∀ j ∈ stale, isWaiting s j = false) ∧
      isWaiting s id = true ∧ s.Forgets s' ∧
      serve item waiting s =
        ((.ok id, rest), s'.setCell id (.ofSlot ⟨some item, .provided⟩)) := by
  induction waiting generalizing s with
  | nil => exact Or.inl ⟨s, Store.Forgets.refl s, nofun, rfl⟩
  | cons id waiting ih =>
    rw [serve_cons hs]
    cases hid : isWaiting s id with
    | true =>
      exact Or.inr ⟨[], id, waiting, s, rfl, nofun, hid, Store.Forgets.refl s, if_pos rfl⟩
    | false =>
      have hforgets := forgets_dropProvider hs hid
      have hstale := isWaiting_of_forgets hforgets
      rw [if_neg Bool.false_ne_true]
      rcases ih (hforgets.evolves.coherent hs) with
        ⟨s', hs', hall, hserve⟩ | ⟨stale, j, rest, s', rfl, hall, hj, hs', hserve⟩
      · refine Or.inl ⟨s', hforgets.trans hs', ?_, hserve⟩
        exact List.forall_mem_cons.mpr ⟨hid, fun j hj => (hstale j).symm.trans (hall j hj)⟩
      · refine Or.inr ⟨id :: stale, j, rest, s', rfl, ?_, (hstale j).symm.trans hj,
          hforgets.trans hs', hserve⟩
        exact List.forall_mem_cons.mpr ⟨hid, fun k hk => (hstale k).symm.trans (hall k hk)⟩

/-- A pushed item goes to the oldest result that still waits, and to the back when there is none. -/
theorem push_cases (hs : s.Coherent) (item : V) (q : Queue V) :
    (∃ s', s.Forgets s' ∧ (∀ id ∈ q.waiting, isWaiting s id = false) ∧
      q.push item s = (s', ⟨q.items ++ [item], []⟩)) ∨
    ∃ stale id rest s', q.waiting = stale ++ id :: rest ∧ (∀ j ∈ stale, isWaiting s j = false) ∧
      isWaiting s id = true ∧ s.Forgets s' ∧
      q.push item s = (s'.setCell id (.ofSlot ⟨some item, .provided⟩), ⟨q.items, rest⟩) := by
  rcases serve_cases hs item q.waiting with
    ⟨s', hs', hall, hserve⟩ | ⟨stale, id, rest, s', hwaiting, hall, hid, hs', hserve⟩
  · exact Or.inl ⟨s', hs', hall, by rw [push, hserve]⟩
  · exact Or.inr ⟨stale, id, rest, s', hwaiting, hall, hid, hs', by rw [push, hserve]⟩

/-! ### Popping -/

/-- The store in which a pop has made its result and the handle on it. -/
def popStore (name : String) (s : Store V) : Store V :=
  (s.create .fresh).addHandle name ⟨s.cells.length, .direct⟩

theorem length_popStore (name : String) :
    (popStore name s).cells.length = s.cells.length + 1 := Store.length_create

theorem cell_popStore (name : String) : (popStore name s).cell id = s.cell id :=
  Store.cell_create_fresh

theorem evolves_popStore (name : String) : s.Evolves (popStore name s) :=
  Store.evolves_create.trans (.of_cells_eq rfl)

/-- Popping a queue that has items provides the result with the front one. -/
theorem pop_of_cons {items : List V} (name : String) (s : Store V) (h : q.items = item :: items) :
    q.pop name s =
      ((popStore name s).setCell s.cells.length (.ofSlot ⟨some item, .provided⟩),
        ⟨items, q.waiting⟩) := by
  have hcell : (popStore name s).cell s.cells.length = .fresh := by
    rw [cell_popStore, Store.cell_of_le (Nat.le_refl _)]
  have hprovide : (((popStore name s).cell s.cells.length).provide item).2 =
      .ofSlot ⟨some item, .provided⟩ := by
    rw [hcell, Cell.coherent_fresh.provide_of_pending rfl]
  rw [pop, h]
  show ((popStore name s).setCell s.cells.length
    (((popStore name s).cell s.cells.length).provide item).2, _) = _
  rw [hprovide]

/-- Popping a queue that has none lets the result wait behind those that still do. -/
theorem pop_of_nil (hs : s.Coherent) (name : String) (h : q.items = []) :
    ∃ s', (popStore name s).Forgets s' ∧
      q.pop name s =
        (s', ⟨[], q.waiting.filter (isWaiting (popStore name s)) ++ [s.cells.length]⟩) := by
  obtain ⟨items, waiting⟩ := q
  obtain rfl : items = [] := h
  have hstale : ∀ id ∈ waiting.filter (not ∘ isWaiting (popStore name s)),
      isWaiting (popStore name s) id = false := by
    intro id hid
    simpa using (List.mem_filter.mp hid).2
  refine ⟨_, forgets_foldl ((evolves_popStore name).coherent hs) hstale, ?_⟩
  show (((waiting.partition (isWaiting (popStore name s))).2.foldl _ (popStore name s)), Queue.mk []
    ((waiting.partition (isWaiting (popStore name s))).1 ++ [s.cells.length])) = _
  rw [List.partition_eq_filter_filter]

/-! ### What the operations keep -/

/-- A queue in a store: nothing waits while there are items, and what waits are results. -/
structure Sound (s : Store V) (q : Queue V) : Prop where
  /-- Items and waiting results exclude each other. -/
  items_or_waiting : q.items = [] ∨ q.waiting = []
  /-- The numbers that wait were given out. -/
  waiting_lt : ∀ id ∈ q.waiting, id < s.cells.length

namespace Sound

theorem empty (s : Store V) : (Queue.empty : Queue V).Sound s := ⟨Or.inl rfl, nofun⟩

theorem mono (h : q.Sound s) (hs : s.Evolves s') : q.Sound s' :=
  ⟨h.items_or_waiting, fun id hid => Nat.lt_of_lt_of_le (h.waiting_lt id hid) hs.length_le⟩

/-- A result that still waits is one of a queue without items. -/
theorem items_eq_nil (h : q.Sound s) (hid : id ∈ q.waiting) : q.items = [] :=
  h.items_or_waiting.resolve_right (List.ne_nil_of_mem hid)

/-- While there are items nothing waits. -/
theorem waiting_eq_nil (h : q.Sound s) {items : List V} (hitems : q.items = item :: items) :
    q.waiting = [] :=
  h.items_or_waiting.resolve_left (by rw [hitems]; exact List.cons_ne_nil _ _)

end Sound

theorem evolves_push (hs : s.Coherent) (item : V) (q : Queue V) : s.Evolves (q.push item s).1 := by
  rcases push_cases hs item q with
    ⟨s', hforgets, -, hpush⟩ | ⟨stale, id, rest, s', -, -, hid, hforgets, hpush⟩
  · rw [hpush]
    exact hforgets.evolves
  · obtain ⟨hpending, halive⟩ := isWaiting_iff.mp hid
    rw [← hforgets.cell_eq_of_hasConsumers halive] at hpending
    rw [hpush]
    exact hforgets.evolves.trans (.setCell (.of_pending hpending (Slot.sound_provided item)))

theorem evolves_pop (hs : s.Coherent) (name : String) (q : Queue V) :
    s.Evolves (q.pop name s).1 := by
  cases hitems : q.items with
  | nil =>
    obtain ⟨s', hforgets, hpop⟩ := pop_of_nil hs name hitems
    rw [hpop]
    exact (evolves_popStore name).trans hforgets.evolves
  | cons item items =>
    have hpending : ((popStore name s).cell s.cells.length).state.isFinal = false := by
      rw [cell_popStore, Store.cell_of_le (Nat.le_refl _)]
      rfl
    rw [pop_of_cons name s hitems]
    exact (evolves_popStore name).trans (.setCell (.of_pending hpending (Slot.sound_provided item)))

theorem evolves_close (s : Store V) (q : Queue V) : s.Evolves (q.close s) :=
  Store.evolves_foldl_dropProvider s q.waiting

theorem Sound.push (h : q.Sound s) (hs : s.Coherent) (item : V) :
    (q.push item s).2.Sound (q.push item s).1 := by
  have hlength := (evolves_push hs item q).length_le
  rcases push_cases hs item q with
    ⟨s', -, -, hpush⟩ | ⟨stale, id, rest, s', hwaiting, -, -, -, hpush⟩
  · rw [hpush]
    exact ⟨Or.inr rfl, nofun⟩
  · rw [hpush] at hlength ⊢
    have hmem : ∀ j ∈ id :: rest, j ∈ q.waiting := by
      intro j hj
      rw [hwaiting]
      exact List.mem_append_right stale hj
    refine ⟨Or.inl (h.items_eq_nil (hmem id (List.mem_cons_self ..))), fun j hj => ?_⟩
    exact Nat.lt_of_lt_of_le (h.waiting_lt j (hmem j (List.mem_cons_of_mem id hj))) hlength

theorem Sound.pop (h : q.Sound s) (hs : s.Coherent) (name : String) :
    (q.pop name s).2.Sound (q.pop name s).1 := by
  cases hitems : q.items with
  | nil =>
    obtain ⟨s', hforgets, hpop⟩ := pop_of_nil hs name hitems
    rw [hpop]
    refine ⟨Or.inl rfl, fun id hid => ?_⟩
    rw [hforgets.length_eq, length_popStore]
    rcases List.mem_append.mp hid with hkept | hnew
    · exact Nat.lt_succ_of_lt (h.waiting_lt id (List.mem_filter.mp hkept).1)
    · rw [List.mem_singleton.mp hnew]
      exact Nat.lt_succ_self _
  | cons item items =>
    have hwaiting := h.waiting_eq_nil hitems
    rw [pop_of_cons name s hitems]
    exact ⟨Or.inr hwaiting, by rw [hwaiting]; exact nofun⟩

theorem Sound.tryPop (h : q.Sound s) : q.tryPop.2.Sound s := by
  rw [Queue.tryPop]
  split
  · rename_i item items hitems
    have hwaiting := h.waiting_eq_nil hitems
    exact ⟨Or.inr hwaiting, by rw [hwaiting]; exact nofun⟩
  · exact h

end Queue

end WireForm.Sync
