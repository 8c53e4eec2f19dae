import WireForm.Sync.Consumer

/-!
# One-shot results as slots

A cell keeps what is known of a result three times over: in the state, in the gate that opens when
the result is final, and in the gate that opens when anything was decided. In a coherent cell they
agree, so that a cell is nothing but its slot, and every operation on it is one on the slot: it does
nothing if the state is final, and otherwise replaces the slot by another. All operations keep cells
coherent, and none of them changes a final state.

A consumer reads a cell through its chain of transforms, which decide what the consumer gets to see
but not what happens to the cell.

## Main definitions

* `Cell.Coherent` — the gates, the state and the value agree
* `Cell.ofSlot` — the coherent cell of a slot
* `Cell.Evolves` — coherence is kept, and so is a final state

## Main results

* `Cell.Coherent.eq_ofSlot` — a coherent cell is that of its slot
* `Cell.Coherent.provide_of_pending`, `…_of_final` and so on — the operations on slots
* `Cell.evolves_provide`, `Cell.evolves_update`, `Cell.evolves_produce`, `Cell.evolves_cancel`,
  `Cell.evolves_cancelAfter`, `Cell.evolves_take`, `Cell.evolves_takeFinal` — every operation
* `Chain.cell_get`, `Chain.cell_take`, `Chain.cell_takeFinal` — and through a chain
* `Chain.control_eq` — calls that touch no value are the same through every chain
-/

namespace WireForm.Sync

variable {α β : Type}

/-! ### Slots -/

theorem State.ne_undecided_of_final {s : State} (h : s.isFinal = true) : s ≠ .undecided := by
  rintro rfl
  cases h

theorem State.isFinal_iff {s : State} : s.isFinal = true ↔ s = .provided ∨ s = .cancelled := by
  cases s <;> simp [State.isFinal]

/-- There is a value only where one was provided. -/
def Slot.Sound (s : Slot α) : Prop := s.state = .undecided ∨ s.state = .cancelled → s.value = none

theorem Slot.sound_cancelled : (Slot.cancelled : Slot α).Sound := fun _ => rfl

theorem Slot.sound_some {a : α} {state : State} (hundecided : state ≠ .undecided)
    (hcancelled : state ≠ .cancelled) : Slot.Sound ⟨some a, state⟩ :=
  fun h => (h.elim hundecided hcancelled).elim

theorem Slot.sound_provided (a : α) : Slot.Sound ⟨some a, .provided⟩ :=
  sound_some State.noConfusion State.noConfusion

theorem Slot.sound_partiallyProvided (a : α) : Slot.Sound ⟨some a, .partiallyProvided⟩ :=
  sound_some State.noConfusion State.noConfusion

/-- Nothing goes back to being undecided. -/
theorem Slot.state_of_after {s : Slot α} {produced : Produced α} {isFinal : Bool}
    (h : (s.after produced isFinal).state = .undecided) : s.state = .undecided := by
  cases produced with
  | value a => cases isFinal <;> cases h
  | nothing => exact h
  | failed reason => cases h
  | crashed => cases h

theorem Slot.Sound.after {s : Slot α} (h : s.Sound) (produced : Produced α) (isFinal : Bool) :
    (s.after produced isFinal).Sound := by
  cases produced with
  | value a =>
    cases isFinal with
    | true => exact sound_provided a
    | false => exact sound_partiallyProvided a
  | nothing => exact h
  | failed reason => exact sound_cancelled
  | crashed => exact sound_cancelled

/-! ### Gates -/

namespace Gate

variable {g : Gate α}

theorem maybeOpen_of_open (h : g.isOpen = true) (decide : α → β × Bool × α) :
    g.maybeOpen decide = ((none, true), g) := by
  rw [maybeOpen, maybeOpenOr, if_pos h]

theorem maybeOpen_of_closed (h : g.isOpen = false) (decide : α → β × Bool × α) :
    g.maybeOpen decide =
      ((some (decide g.value).1, (decide g.value).2.1),
        ⟨(decide g.value).2.1, (decide g.value).2.2⟩) := by
  rw [maybeOpen, maybeOpenOr, if_neg (Bool.eq_false_iff.mp h)]

theorem openAfter_of_open (h : g.isOpen = true) (p : Patience) (onForce : α → β × α) :
    g.openAfter p onForce = some ((true, none), g) := by
  obtain ⟨isOpen, value⟩ := g
  obtain rfl : isOpen = true := h
  cases p <;> rfl

theorem openAfter_of_closed (h : g.isOpen = false) (p : Patience) (onForce : α → β × α) :
    g.openAfter p onForce =
      match p with
      | .bounded => some ((false, some (onForce g.value).1), ⟨true, (onForce g.value).2⟩)
      | .unbounded => none := by
  obtain ⟨isOpen, value⟩ := g
  obtain rfl : isOpen = false := h
  cases p <;> rfl

end Gate

namespace Cell

/-! ### Coherent cells -/

/-- The cell of which a slot is all that is to know. -/
def ofSlot (s : Slot α) : Cell α := ⟨⟨s.state.isFinal, s⟩, ⟨s.state != .undecided, ()⟩⟩

/-- The gates say what the state says, and a value is there only where one was provided. -/
structure Coherent (c : Cell α) : Prop where
  /-- The first gate is open just when the state is final. -/
  slot_isOpen : c.slot.isOpen = c.state.isFinal
  /-- The second gate is open just when anything was decided. -/
  decided_isOpen : c.decided.isOpen = (c.state != .undecided)
  /-- Before anything was decided and after a cancellation there is no value. -/
  sound : c.slot.value.Sound

theorem state_ofSlot (s : Slot α) : (ofSlot s).state = s.state := rfl

theorem get_ofSlot (s : Slot α) : (ofSlot s).get = s.value := rfl

theorem coherent_ofSlot {s : Slot α} (h : s.Sound) : (ofSlot s).Coherent := ⟨rfl, rfl, h⟩

theorem coherent_fresh : (fresh : Cell α).Coherent := ⟨rfl, rfl, fun _ => rfl⟩

/-- A coherent cell is that of its slot. -/
theorem Coherent.eq_ofSlot {c : Cell α} (h : c.Coherent) : c = ofSlot c.slot.value := by
  obtain ⟨⟨isOpen, s⟩, ⟨isDecided, u⟩⟩ := c
  obtain ⟨hslot, hdecided, -⟩ := h
  obtain rfl : isOpen = s.state.isFinal := hslot
  obtain rfl : isDecided = (s.state != .undecided) := hdecided
  rfl

/-! ### Operations

Each has one equation for results that are final and one for those that are not. -/

namespace Coherent

variable {c : Cell α}

theorem isOpen_of_final (h : c.Coherent) (hfinal : c.state.isFinal = true) : c.slot.isOpen = true :=
  h.slot_isOpen.trans hfinal

theorem isOpen_of_pending (h : c.Coherent) (hpending : c.state.isFinal = false) :
    c.slot.isOpen = false := h.slot_isOpen.trans hpending

theorem provide_of_final (h : c.Coherent) (hfinal : c.state.isFinal = true) (a : α) :
    c.provide a = (some a, c) := by
  rw [provide, Gate.maybeOpen_of_open (h.isOpen_of_final hfinal)]

theorem provide_of_pending (h : c.Coherent) (hpending : c.state.isFinal = false) (a : α) :
    c.provide a = (none, ofSlot ⟨some a, .provided⟩) := by
  rw [provide, Gate.maybeOpen_of_closed (h.isOpen_of_pending hpending)]
  rfl

theorem update_of_final (h : c.Coherent) (hfinal : c.state.isFinal = true) (a : α) :
    c.update a = (false, c) := by
  obtain ⟨⟨isOpen, s⟩, decided⟩ := c
  obtain rfl : isOpen = true := h.isOpen_of_final hfinal
  rfl

theorem update_of_pending (h : c.Coherent) (hpending : c.state.isFinal = false) (a : α) :
    c.update a = (true, ofSlot ⟨some a, .partiallyProvided⟩) := by
  obtain ⟨⟨isOpen, s⟩, decided⟩ := c
  obtain rfl : isOpen = false := h.isOpen_of_pending hpending
  rfl

theorem cancel_of_final (h : c.Coherent) (hfinal : c.state.isFinal = true) :
    c.cancel = (false, c) := by
  rw [cancel, Gate.maybeOpen_of_open (h.isOpen_of_final hfinal)]
  rfl

theorem cancel_of_pending (h : c.Coherent) (hpending : c.state.isFinal = false) :
    c.cancel = (true, ofSlot .cancelled) := by
  rw [cancel, Gate.maybeOpen_of_closed (h.isOpen_of_pending hpending)]
  rfl

theorem decide_eq (h : c.Coherent) (hdecided : c.state ≠ .undecided) : c.decide = c := by
  obtain ⟨slot, ⟨isOpen, u⟩⟩ := c
  obtain rfl : isOpen = true := h.decided_isOpen.trans (bne_iff_ne.mpr hdecided)
  rfl

theorem produce_of_final (h : c.Coherent) (hfinal : c.state.isFinal = true)
    (produced : Produced α) (isFinal : Bool) :
    c.produce produced isFinal = ((c.state, false), c) := by
  have hstate := State.ne_undecided_of_final hfinal
  rw [produce, Gate.maybeOpen_of_open (h.isOpen_of_final hfinal)]
  show ((c.state, false), if c.state = .undecided then c else c.decide) = _
  rw [if_neg hstate, h.decide_eq hstate]

/-- A callback that gives nothing before anything was decided leaves the second gate closed. -/
theorem produce_of_pending (h : c.Coherent) (hpending : c.state.isFinal = false)
    (produced : Produced α) (isFinal : Bool) :
    c.produce produced isFinal =
      (((c.slot.value.after produced isFinal).state, true),
        ofSlot (c.slot.value.after produced isFinal)) := by
  have hback : (c.slot.value.after produced isFinal).state = .undecided → c.state = .undecided :=
    Slot.state_of_after
  rw [produce, Gate.maybeOpen_of_closed (h.isOpen_of_pending hpending)]
  generalize c.slot.value.after produced isFinal = s at hback
  show ((s.state, true),
    if s.state = .undecided then Cell.mk ⟨s.state.isFinal, s⟩ c.decided
    else Cell.mk ⟨s.state.isFinal, s⟩ ⟨true, ()⟩) = _
  split
  · rename_i hundecided
    have hclosed : c.decided = ⟨false, ()⟩ := by
      have hisOpen := h.decided_isOpen
      rw [hback hundecided] at hisOpen
      exact congrArg (Gate.mk · ()) hisOpen
    rw [ofSlot, hundecided, hclosed]
    rfl
  · rename_i hdecided
    rw [ofSlot, bne_iff_ne.mpr hdecided]

theorem cancelAfter_of_final (h : c.Coherent) (hfinal : c.state.isFinal = true) (p : Patience) :
    c.cancelAfter p = some (true, c) := by
  have hstate := State.ne_undecided_of_final hfinal
  rw [cancelAfter, Gate.openAfter_of_open (h.isOpen_of_final hfinal)]
  show some (true, c.decide) = _
  rw [h.decide_eq hstate]

theorem cancelAfter_of_pending (h : c.Coherent) (hpending : c.state.isFinal = false)
    (p : Patience) :
    c.cancelAfter p =
      match p with
      | .bounded => some (false, ofSlot .cancelled)
      | .unbounded => none := by
  rw [cancelAfter, Gate.openAfter_of_closed (h.isOpen_of_pending hpending)]
  cases p <;> rfl

end Coherent

/-! ### What operations keep -/

/-- From a coherent cell to a coherent one, whose state is the same if it was final. -/
def Evolves (c c' : Cell α) : Prop :=
  c.Coherent → c'.Coherent ∧ (c.state.isFinal = true → c'.state = c.state)

namespace Evolves

theorem refl (c : Cell α) : c.Evolves c := fun h => ⟨h, fun _ => rfl⟩

theorem trans {c c' c'' : Cell α} (h : c.Evolves c') (h' : c'.Evolves c'') : c.Evolves c'' := by
  intro hc
  obtain ⟨hc', hstate⟩ := h hc
  obtain ⟨hc'', hstate'⟩ := h' hc'
  refine ⟨hc'', fun hfinal => ?_⟩
  rw [hstate' (by rwa [hstate hfinal]), hstate hfinal]

/-- An operation that leaves final results alone, and gives others a slot. -/
theorem of_cases {c c' : Cell α} (hfinal : c.Coherent → c.state.isFinal = true → c' = c)
    (hpending : c.Coherent → c.state.isFinal = false → ∃ s : Slot α, s.Sound ∧ c' = ofSlot s) :
    c.Evolves c' := by
  intro hc
  cases hstate : c.state.isFinal with
  | true =>
    rw [hfinal hc hstate]
    exact ⟨hc, fun _ => rfl⟩
  | false =>
    obtain ⟨s, hs, rfl⟩ := hpending hc hstate
    exact ⟨coherent_ofSlot hs, nofun⟩

/-- A result that is not final may come to anything. -/
theorem of_pending {c : Cell α} {s : Slot α} (hpending : c.state.isFinal = false) (hs : s.Sound) :
    c.Evolves (ofSlot s) := by
  refine of_cases (fun _ hfinal => ?_) fun _ _ => ⟨s, hs, rfl⟩
  rw [hpending] at hfinal
  cases hfinal

end Evolves

variable (c : Cell α)

theorem evolves_provide (a : α) : c.Evolves (c.provide a).2 := by
  refine Evolves.of_cases (fun h hfinal => ?_) fun h hpending => ?_
  · rw [h.provide_of_final hfinal]
  · rw [h.provide_of_pending hpending]
    exact ⟨_, Slot.sound_provided a, rfl⟩

theorem evolves_update (a : α) : c.Evolves (c.update a).2 := by
  refine Evolves.of_cases (fun h hfinal => ?_) fun h hpending => ?_
  · rw [h.update_of_final hfinal]
  · rw [h.update_of_pending hpending]
    exact ⟨_, Slot.sound_partiallyProvided a, rfl⟩

theorem evolves_produce (produced : Produced α) (isFinal : Bool) :
    c.Evolves (c.produce produced isFinal).2 := by
  refine Evolves.of_cases (fun h hfinal => ?_) fun h hpending => ?_
  · rw [h.produce_of_final hfinal]
  · rw [h.produce_of_pending hpending]
    exact ⟨_, h.sound.after produced isFinal, rfl⟩

theorem evolves_cancel : c.Evolves c.cancel.2 := by
  refine Evolves.of_cases (fun h hfinal => ?_) fun h hpending => ?_
  · rw [h.cancel_of_final hfinal]
  · rw [h.cancel_of_pending hpending]
    exact ⟨_, Slot.sound_cancelled, rfl⟩

theorem evolves_cancelAfter {p : Patience} {inTime : Bool} {c' : Cell α}
    (hcancel : c.cancelAfter p = some (inTime, c')) : c.Evolves c' := by
  refine Evolves.of_cases (fun h hfinal => ?_) fun h hpending => ?_
  · rw [h.cancelAfter_of_final hfinal] at hcancel
    exact (Prod.mk.inj (Option.some.inj hcancel)).2.symm
  · rw [h.cancelAfter_of_pending hpending] at hcancel
    cases p with
    | bounded =>
      exact ⟨_, Slot.sound_cancelled, (Prod.mk.inj (Option.some.inj hcancel)).2.symm⟩
    | unbounded => cases hcancel

/-- Taking a value leaves the state as it is. -/
theorem evolves_take : c.Evolves c.take.2 := fun h =>
  ⟨⟨h.slot_isOpen, h.decided_isOpen, fun _ => rfl⟩, fun _ => rfl⟩

theorem evolves_takeFinal : c.Evolves c.takeFinal.2 := by
  obtain ⟨⟨isOpen, s⟩, decided⟩ := c
  cases isOpen with
  | true => exact evolves_take _
  | false => exact Evolves.refl _

end Cell

/-! ### Through a chain of transforms -/

theorem Retrieval.cell_transform {γ : Type} (r : Retrieval α β) (f : Transform β γ) :
    (r.transform f).cell = r.cell := by
  rw [transform]
  split <;> rfl

namespace Chain

theorem cell_get {β : Type} (ch : Chain α β) (c : Cell α) : (ch.get c).cell = c := by
  induction ch with
  | direct => rfl
  | map base f ih => rw [get, Retrieval.cell_transform, ih]
  | mapOwned base f ih => rfl

theorem cell_take {β : Type} (ch : Chain α β) (c : Cell α) : (ch.take c).cell = c.take.2 := by
  induction ch with
  | direct => rfl
  | map base f ih => rw [take, Retrieval.cell_transform, ih]
  | mapOwned base f ih => rw [take, Retrieval.cell_transform, ih]

theorem cell_takeFinal {β : Type} (ch : Chain α β) (c : Cell α) :
    (ch.takeFinal c).cell = c.takeFinal.2 := by
  induction ch with
  | direct => rfl
  | map base f ih => rw [takeFinal, Retrieval.cell_transform, ih]
  | mapOwned base f ih => rw [takeFinal, Retrieval.cell_transform, ih]

/-- However many links hand a call on that touches no value, it ends at the result itself. -/
theorem control_eq {β : Type} (ch : Chain α β) : ch.control = .direct := by
  induction ch with
  | direct => rfl
  | map base f ih => exact congrArg Control.forward ih
  | mapOwned base f ih => exact congrArg Control.forward ih

variable {β : Type} (ch : Chain α β) (p : Patience) (c : Cell α)

theorem getOrCancel_eq : ch.getOrCancel c = ch.get c.cancel.2 := by
  rw [getOrCancel, control_eq]
  rfl

theorem getOrCancelAfter_eq :
    ch.getOrCancelAfter p c = (c.cancelAfter p).map fun x => ch.get x.2 := by
  rw [getOrCancelAfter, control_eq]
  rfl

theorem takeOrCancelAfter_eq :
    ch.takeOrCancelAfter p c = (c.cancelAfter p).map fun x => ch.takeFinal x.2 := by
  rw [takeOrCancelAfter, control_eq]
  rfl

end Chain

end WireForm.Sync
