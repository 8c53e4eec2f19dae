import WireForm.Proofs.History
import WireForm.Proofs.Session

/-!
# What answers tell

What happens to a result can be followed from outside, by the answers of the calls about it. A value
that was not given back was set, a call that found nothing to wait for had to cancel, a value that
was taken was there. An answer that says none of these stands for a call that left the result as it
was. Only a provider that goes away gives no answer about its result, so the state before is looked
at.

A consumer hears from its result through transforms. They decide what it gets, but not whether it
gets anything: a value that is there comes out as a value or a crash.

## Main definitions

* `Call.event?`, `Produced.event?`, `Action.event?` — what an answer tells
* `Session.Retrieves` — a retrieval takes the value or leaves it

## Main results

* `Chain.value_take_eq_none`, `Chain.value_takeFinal_eq_none` — a value that is there comes out
* `records_provide`, `records_update`, `records_produce`, `records_cancel` — what providers hear
* `Session.records_call` — and what consumers hear
-/

namespace WireForm.Sync

variable {V : Type}

/-! ### Retrieving through transforms -/

section Chains

variable {α β γ : Type} {c : Cell α}

/-- A transform neither brings a value nor loses one, save by a crash. -/
theorem Retrieval.value_transform_eq_none (r : Retrieval α β) (f : Transform β γ) :
    (r.transform f).value = .ok none ↔ r.value = .ok none := by
  rw [transform]
  split
  · rename_i b hvalue
    rw [hvalue]
    cases f.apply b with
    | ok c => simp [Except.map]
    | error fault => simp [Except.map]
  · rename_i hvalue
    simp [hvalue]
  · rename_i fault hvalue
    simp [hvalue]

theorem Retrieval.settled_of_none (r : Retrieval α β) (h : r.value = .ok none) :
    r.settled .direct =
      .ok (.error (if r.cell.state = .cancelled then .cancelled else .taken)) := by
  rw [settled, h]
  show Except.ok (if r.cell.state = .cancelled then Except.error Unavailable.cancelled
    else .error .taken) = _
  split <;> rfl

theorem Chain.value_get_of_none {β : Type} (ch : Chain α β) (h : c.get = none) :
    (ch.get c).value = .ok none := by
  induction ch with
  | direct => exact congrArg Except.ok h
  | map base f ih => rwa [get, Retrieval.value_transform_eq_none]
  | mapOwned base f ih => rfl

theorem Chain.value_take_eq_none {β : Type} (ch : Chain α β) :
    (ch.take c).value = .ok none ↔ c.get = none := by
  induction ch with
  | direct => exact iff_of_eq (Except.ok.injEq _ _)
  | map base f ih => rwa [take, Retrieval.value_transform_eq_none]
  | mapOwned base f ih => rwa [take, Retrieval.value_transform_eq_none]

theorem Chain.value_takeFinal_eq_none {β : Type} (ch : Chain α β) :
    (ch.takeFinal c).value = .ok none ↔ c.takeFinal.1 = none := by
  induction ch with
  | direct => exact iff_of_eq (Except.ok.injEq _ _)
  | map base f ih => rwa [takeFinal, Retrieval.value_transform_eq_none]
  | mapOwned base f ih => rwa [takeFinal, Retrieval.value_transform_eq_none]

theorem Cell.Coherent.takeFinal_of_final (h : c.Coherent) (hfinal : c.state.isFinal = true) :
    c.takeFinal = c.take := by
  obtain ⟨⟨isOpen, s⟩, decided⟩ := c
  obtain rfl : isOpen = true := h.isOpen_of_final hfinal
  rfl

theorem Cell.Coherent.takeFinal_of_pending (h : c.Coherent) (hpending : c.state.isFinal = false) :
    c.takeFinal = (none, c) := by
  obtain ⟨⟨isOpen, s⟩, decided⟩ := c
  obtain rfl : isOpen = false := h.isOpen_of_pending hpending
  rfl

end Chains

/-! ### What answers tell -/

/-- Whether a call takes the value that it retrieves. -/
def Call.takes : Call → Bool
  | .tryTake | .tryTakeFinal | .takeOrCancelAfter _ => true
  | _ => false

/-- What the answer to a consumer's call tells, where the result was in this state before: a value
was retrieved by taking it, a call that asks for the final value had to cancel the result, or the
call was to cancel it. A transform that crashes has got a value. -/
def Call.event? (call : Call) (before : State) : Reply V → Option (Event V)
  | .value (some _) | .crashed => if call.takes then some .taken else none
  | .unavailable .cancelled => if before.isFinal then none else some .cancelled
  | .flag did =>
    match call with
    | .cancel => if did then some .cancelled else none
    | .cancelAfter _ => if did then none else some .cancelled
    | _ => none
  | _ => none

/-- What a producing callback that ran comes to. -/
def Produced.event? (isFinal : Bool) : Produced V → Option (Event V)
  | .value v => some (.set v isFinal)
  | .nothing => none
  | .failed _ | .crashed => some .cancelled

/-- What the answer to a call about a result tells, where the result was in this state before, and
these calls were on threads. A provider that goes away gives no answer; its result is cancelled if
it was not final. -/
def Action.event? (spawned : List (String × Call)) (before : State) (a : Action V)
    (reply : Reply V) : Option (Event V) :=
  match a with
  | .provide _ v =>
    match reply with
    | .flag did => if did then some (.set v true) else none
    | _ => none
  | .tryProvide _ v =>
    match reply with
    | .done => some (.set v true)
    | _ => none
  | .update _ v =>
    match reply with
    | .flag did => if did then some (.set v false) else none
    | _ => none
  | .produce _ produced isFinal =>
    match reply with
    | .produced _ ran => if ran then produced.event? isFinal else none
    | _ => none
  | .cancelProvider _ =>
    match reply with
    | .flag did => if did then some .cancelled else none
    | _ => none
  | .provider _ | .dropProvider _ => if before.isFinal then none else some .cancelled
  | .call _ called => called.event? before reply
  | .join name =>
    match reply with
    | .joined reply _ => (spawned.lookup name).bind (Call.event? · before reply)
    | _ => none
  | _ => none

/-! ### Cells and what answers tell -/

theorem Slot.records_after {s : Slot V} (hpending : s.state.isFinal = false)
    (produced : Produced V) (isFinal : Bool) :
    s.Records (s.after produced isFinal) (produced.event? isFinal) := by
  cases produced with
  | value v => exact Records.of_admits (e := .set v isFinal) hpending
  | nothing => exact Records.refl s
  | failed reason => exact Records.of_admits (e := .cancelled) hpending
  | crashed => exact Records.of_admits (e := .cancelled) hpending

section Cells

variable {c : Cell V}

theorem Cell.Coherent.cancel_fst (hc : c.Coherent) : c.cancel.1 = !c.state.isFinal := by
  cases hstate : c.state.isFinal with
  | true =>
    rw [hc.cancel_of_final hstate]
    rfl
  | false =>
    rw [hc.cancel_of_pending hstate]
    rfl

/-- To cancel at once is to wait no longer than now. -/
theorem Cell.Coherent.cancelAfter_bounded (hc : c.Coherent) :
    c.cancelAfter .bounded = some (!c.cancel.1, c.cancel.2) := by
  cases hstate : c.state.isFinal with
  | true =>
    rw [hc.cancelAfter_of_final hstate, hc.cancel_of_final hstate]
    rfl
  | false =>
    rw [hc.cancelAfter_of_pending hstate, hc.cancel_of_pending hstate]
    rfl

theorem records_cancel (hc : c.Coherent) :
    c.slot.value.Records c.cancel.2.slot.value (if c.cancel.1 then some .cancelled else none) := by
  cases hstate : c.state.isFinal with
  | true =>
    rw [hc.cancel_of_final hstate]
    exact Slot.Records.refl _
  | false =>
    rw [hc.cancel_of_pending hstate]
    exact Slot.Records.of_admits (e := .cancelled) hstate

/-- A value that is not given back was set. -/
theorem records_provide (hc : c.Coherent) (v : V) :
    c.slot.value.Records (c.provide v).2.slot.value
      (if (c.provide v).1.isNone then some (.set v true) else none) := by
  cases hstate : c.state.isFinal with
  | true =>
    rw [hc.provide_of_final hstate]
    exact Slot.Records.refl _
  | false =>
    rw [hc.provide_of_pending hstate]
    exact Slot.Records.of_admits (e := .set v true) hstate

theorem records_update (hc : c.Coherent) (v : V) :
    c.slot.value.Records (c.update v).2.slot.value
      (if (c.update v).1 then some (.set v false) else none) := by
  cases hstate : c.state.isFinal with
  | true =>
    rw [hc.update_of_final hstate]
    exact Slot.Records.refl _
  | false =>
    rw [hc.update_of_pending hstate]
    exact Slot.Records.of_admits (e := .set v false) hstate

theorem records_produce (hc : c.Coherent) (produced : Produced V) (isFinal : Bool) :
    c.slot.value.Records (c.produce produced isFinal).2.slot.value
      (if (c.produce produced isFinal).1.2 then produced.event? isFinal else none) := by
  cases hstate : c.state.isFinal with
  | true =>
    rw [hc.produce_of_final hstate]
    exact Slot.Records.refl _
  | false =>
    rw [hc.produce_of_pending hstate]
    exact Slot.records_after hstate produced isFinal

end Cells

namespace Session

variable {s : Session V} {id : Nat}

/-! ### Calls of consumers -/

/-- A retrieval leaves the result as it is if there was no value, and otherwise takes the value if
the call is one that does. -/
structure Retrieves (call : Call) (c : Cell V) (r : Retrieval V V) : Prop where
  /-- Without a value nothing happens. -/
  of_none : r.value = .ok none → r.cell = c
  /-- A value is taken, or only looked at. -/
  of_ne : r.value ≠ .ok none →
    c.slot.value.Records r.cell.slot.value (if call.takes then some .taken else none)

section Retrievals

variable {call : Call} {c : Cell V} {r : Retrieval V V} {before : State}

theorem retrieves_get (h : call.takes = false) (ch : Chain V V) (c : Cell V) :
    Retrieves call c (ch.get c) := by
  refine ⟨fun _ => Chain.cell_get ch c, fun _ => ?_⟩
  rw [Chain.cell_get, h]
  exact Slot.Records.refl _

theorem take_of_none (h : c.get = none) : c.take.2 = c := by
  obtain ⟨⟨isOpen, ⟨value, state⟩⟩, decided⟩ := c
  obtain rfl : value = none := h
  rfl

theorem retrieves_take (h : call.takes = true) (ch : Chain V V) (c : Cell V) :
    Retrieves call c (ch.take c) := by
  refine ⟨fun hnone => ?_, fun hne => ?_⟩
  · rw [Chain.cell_take]
    exact take_of_none ((Chain.value_take_eq_none ch).mp hnone)
  · have hvalue : c.get ≠ none := fun hget => hne ((Chain.value_take_eq_none ch).mpr hget)
    rw [Chain.cell_take, h]
    exact Slot.Records.of_admits (e := .taken) hvalue

theorem retrieves_takeFinal (h : call.takes = true) (hc : c.Coherent) (ch : Chain V V) :
    Retrieves call c (ch.takeFinal c) := by
  have hvalue := Chain.value_takeFinal_eq_none (c := c) ch
  have hcell := Chain.cell_takeFinal ch c
  cases hstate : c.state.isFinal with
  | true =>
    -- To take the final value of a final result is to take its value.
    rw [hc.takeFinal_of_final hstate] at hvalue hcell
    have hsame : (ch.takeFinal c).value = .ok none ↔ (ch.take c).value = .ok none :=
      hvalue.trans (Chain.value_take_eq_none ch).symm
    obtain ⟨hnone, hne⟩ := retrieves_take h ch c
    rw [Chain.cell_take, ← hcell] at hnone hne
    exact ⟨hnone ∘ hsame.mp, hne ∘ mt hsame.mpr⟩
  | false =>
    rw [hc.takeFinal_of_pending hstate] at hvalue hcell
    exact ⟨fun _ => hcell, fun hne => absurd (hvalue.mpr rfl) hne⟩

/-- What the answer to a call that asks for the present value tells. -/
theorem Retrieves.fetched (h : Retrieves call c r) (hid : id < s.store.cells.length) :
    c.slot.value.Records ((s.retrieve id r r.value .value).2.store.cell id).slot.value
      (call.event? before (s.retrieve id r r.value .value).1) := by
  have hcell : (s.retrieve id r r.value .value).2.store.cell id = r.cell :=
    Store.cell_setCell_self hid
  rw [hcell]
  by_cases hnone : r.value = .ok none
  · rw [h.of_none hnone, hnone]
    exact Slot.Records.refl _
  · have hevent : call.event? before (s.retrieve id r r.value .value).1 =
        if call.takes then some .taken else none := by
      rcases hvalue : r.value with fault | (_ | b)
      · rfl
      · exact absurd hvalue hnone
      · rfl
    rw [hevent]
    exact h.of_ne hnone

/-- What the answer to a call tells that settles the result first, where it was final already. -/
theorem Retrieves.settled_of_final (h : Retrieves call c r) (hid : id < s.store.cells.length)
    (hfinal : before.isFinal = true) :
    c.slot.value.Records
      ((s.retrieve id r (r.settled .direct) settledReply).2.store.cell id).slot.value
      (call.event? before (s.retrieve id r (r.settled .direct) settledReply).1) := by
  have hcell : (s.retrieve id r (r.settled .direct) settledReply).2.store.cell id = r.cell :=
    Store.cell_setCell_self hid
  rw [hcell]
  by_cases hnone : r.value = .ok none
  · have hevent :
        call.event? before (s.retrieve id r (r.settled .direct) settledReply).1 = none := by
      rw [r.settled_of_none hnone]
      split
      · exact if_pos hfinal
      · rfl
    rw [hevent, h.of_none hnone]
    exact Slot.Records.refl _
  · have hevent : call.event? before (s.retrieve id r (r.settled .direct) settledReply).1 =
        if call.takes then some .taken else none := by
      rw [Retrieval.settled]
      rcases hvalue : r.value with fault | (_ | b)
      · rfl
      · exact absurd hvalue hnone
      · rfl
    rw [hevent]
    exact h.of_ne hnone

/-- What it tells where the call had to cancel the result. -/
theorem Retrieves.settled_of_pending (h : Retrieves call (.ofSlot .cancelled) r)
    (hnone : r.value = .ok none) (hid : id < s.store.cells.length)
    (hpending : c.state.isFinal = false) :
    c.slot.value.Records
      ((s.retrieve id r (r.settled .direct) settledReply).2.store.cell id).slot.value
      (call.event? c.state (s.retrieve id r (r.settled .direct) settledReply).1) := by
  have hcell : (s.retrieve id r (r.settled .direct) settledReply).2.store.cell id =
      .ofSlot .cancelled :=
    (Store.cell_setCell_self hid).trans (h.of_none hnone)
  have hevent : call.event? c.state (s.retrieve id r (r.settled .direct) settledReply).1 =
      some .cancelled := by
    rw [r.settled_of_none hnone, h.of_none hnone]
    exact if_neg (Bool.eq_false_iff.mp hpending)
  rw [hcell, hevent]
  exact Slot.Records.of_admits (e := .cancelled) hpending

/-- The answer to a call that settles the result and then retrieves, or waits for ever. -/
def afterSettling (s : Session V) (id : Nat) : Option (Retrieval V V) → Reply V × Session V
  | some r => s.retrieve id r (r.settled .direct) settledReply
  | none => (.blocked, s)

/-- Through whichever transforms a call retrieves, what its answer tells is that it found the result
final, or had to cancel it. -/
theorem records_afterSettling (call : Call) (hc : (s.store.cell id).Coherent)
    (hid : id < s.store.cells.length) {retrieve : Cell V → Retrieval V V}
    (hretrieve : ∀ c, c.Coherent → Retrieves call c (retrieve c))
    (hcancelled : (retrieve (.ofSlot .cancelled)).value = .ok none) (p : Patience) :
    let r := ((s.store.cell id).cancelAfter p).map fun x => retrieve x.2
    (s.store.cell id).slot.value.Records ((s.afterSettling id r).2.store.cell id).slot.value
      (call.event? (s.store.cell id).state (s.afterSettling id r).1) := by
  dsimp only
  cases hstate : (s.store.cell id).state.isFinal with
  | true =>
    rw [hc.cancelAfter_of_final hstate]
    exact (hretrieve _ hc).settled_of_final hid hstate
  | false =>
    rw [hc.cancelAfter_of_pending hstate]
    cases p with
    | bounded =>
      have hsound := hretrieve _ (Cell.coherent_ofSlot Slot.sound_cancelled)
      exact hsound.settled_of_pending hcancelled hid hstate
    | unbounded => exact Slot.Records.refl _

end Retrievals

/-- **The answer to a consumer's call tells what happened to the result.** -/
theorem records_call {h : Handle V} (hc : (s.store.cell h.cell).Coherent)
    (hid : h.cell < s.store.cells.length) (call : Call) :
    (s.store.cell h.cell).slot.value.Records ((s.call h call).2.store.cell h.cell).slot.value
      (call.event? (s.store.cell h.cell).state (s.call h call).1) := by
  rw [call_eq]
  have hget : (h.chain.get (.ofSlot .cancelled)).value = .ok none :=
    h.chain.value_get_of_none rfl
  have htakeFinal : (h.chain.takeFinal (.ofSlot .cancelled)).value = .ok none :=
    h.chain.value_takeFinal_eq_none.mpr rfl
  cases call with
  | wait =>
    simp only [callThrough, Control.direct]
    split <;> exact Slot.Records.refl _
  | waitFinal =>
    simp only [callThrough, Control.direct]
    split <;> exact Slot.Records.refl _
  | waitFor p =>
    simp only [callThrough, Control.direct]
    split <;> exact Slot.Records.refl _
  | waitFinalFor p =>
    simp only [callThrough, Control.direct]
    split <;> exact Slot.Records.refl _
  | cancelAfter p =>
    simp only [callThrough, Control.direct]
    cases hstate : (s.store.cell h.cell).state.isFinal with
    | true =>
      rw [hc.cancelAfter_of_final hstate]
      simp only [setCell, Store.setCell_cell]
      exact Slot.Records.refl _
    | false =>
      rw [hc.cancelAfter_of_pending hstate]
      cases p with
      | bounded =>
        simp only [setCell, Store.cell_setCell_self hid]
        exact Slot.Records.of_admits (e := .cancelled) hstate
      | unbounded => exact Slot.Records.refl _
  | cancel =>
    simp only [callThrough, Control.direct, setCell, Store.cell_setCell_self hid]
    exact records_cancel hc
  | tryGet => exact (retrieves_get rfl h.chain _).fetched hid
  | tryTake => exact (retrieves_take rfl h.chain _).fetched hid
  | tryTakeFinal => exact (retrieves_takeFinal rfl hc h.chain).fetched hid
  | getOrCancel =>
    have hrecords := records_afterSettling .getOrCancel hc hid
      (fun c _ => retrieves_get rfl h.chain c) hget .bounded
    rw [hc.cancelAfter_bounded] at hrecords
    simp only [callThrough, Chain.getOrCancel_eq]
    exact hrecords
  | getOrCancelAfter p =>
    simp only [callThrough, Chain.getOrCancelAfter_eq]
    exact records_afterSettling _ hc hid (fun c _ => retrieves_get rfl h.chain c) hget p
  | takeOrCancelAfter p =>
    simp only [callThrough, Chain.takeOrCancelAfter_eq]
    exact records_afterSettling _ hc hid (fun _ hc => retrieves_takeFinal rfl hc h.chain)
      htakeFinal p

end Session

end WireForm.Sync
