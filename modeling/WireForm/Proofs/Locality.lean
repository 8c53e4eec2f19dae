import WireForm.Proofs.Session

/-!
# Calls that are about one result

A call of a consumer looks at one result and at nothing else in the session. Its answer, what
becomes of the result and which transforms are called are functions of that result and of the chain
that it is read through, so in two sessions that hold the same result the call does the same.

The chain is part of the handle, and fixed once the handle is. What two sessions have to agree on is
therefore the result alone.

## Main definitions

* `Session.Concerns` — a step of a session that is about one result

## Main results

* `Session.concerns_setCell` — changing one result by a function of it
* `Session.concerns_call` — every call of a consumer
-/

namespace WireForm.Sync.Session

variable {V : Type} {id : Nat}

/-- The step `f` is about the result of this number alone: the answer, what becomes of the result
and the transforms that are called depend on nothing else, and nothing else is changed. -/
def Concerns (id : Nat) (f : Session V → Reply V × Session V) : Prop :=
  ∃ (reply : Cell V → Reply V) (after : Cell V → Cell V) (labels : Cell V → List Nat),
    ∀ s : Session V, f s =
      (reply (s.store.cell id), { s with
        store := s.store.setCell id (after (s.store.cell id))
        calls := s.calls ++ labels (s.store.cell id) })

/-- Putting a result back as it is and calling no transforms changes nothing. -/
theorem eq_setCell_cell (s : Session V) (id : Nat) :
    s = { s with store := s.store.setCell id (s.store.cell id), calls := s.calls ++ [] } := by
  rw [Store.setCell_cell, List.append_nil]

theorem concerns_setCell (reply : Cell V → Reply V) (after : Cell V → Cell V) :
    Concerns id fun s => (reply (s.store.cell id), s.setCell id (after (s.store.cell id))) := by
  refine ⟨reply, after, fun _ => [], fun s => ?_⟩
  rw [List.append_nil]
  rfl

/-- Looking at a result without changing it. -/
theorem concerns_look (reply : Cell V → Reply V) :
    Concerns id fun s => (reply (s.store.cell id), s) :=
  ⟨reply, fun c => c, fun _ => [], fun s => congrArg (Prod.mk _) (eq_setCell_cell s id)⟩

theorem concerns_waited (r : Cell V → Option Bool) (answer : Bool → Reply V) :
    Concerns id fun s => match r (s.store.cell id) with
      | some b => (answer b, s)
      | none => (.blocked, s) := by
  obtain ⟨reply, after, labels, hlook⟩ : Concerns id _ :=
    concerns_look fun c => (r c).elim .blocked answer
  refine ⟨reply, after, labels, fun s => (Eq.trans ?_ (hlook s))⟩
  dsimp only
  cases r (s.store.cell id) <;> rfl

theorem concerns_retrieve {α β : Type} (r : Cell V → Retrieval V β)
    (outcome : Retrieval V β → Outcome α) (answer : α → Reply V) :
    Concerns id fun s =>
      s.retrieve id (r (s.store.cell id)) (outcome (r (s.store.cell id))) answer :=
  ⟨fun c => (start.retrieve id (r c) (outcome (r c)) answer).1, fun c => (r c).cell,
    fun c => (r c).calls, fun _ => rfl⟩

theorem concerns_settled (r : Cell V → Option (Retrieval V V)) :
    Concerns id fun s => match r (s.store.cell id) with
      | some r => s.retrieve id r (r.settled .direct) settledReply
      | none => (.blocked, s) := by
  refine ⟨fun c => (r c).elim .blocked fun r =>
      (start.retrieve id r (r.settled .direct) settledReply).1,
    fun c => (r c).elim c (·.cell), fun c => (r c).elim [] (·.calls), fun s => ?_⟩
  dsimp only
  cases r (s.store.cell id) with
  | some r => rfl
  | none => exact congrArg (Prod.mk _) (eq_setCell_cell s id)

/-- **A call of a consumer is about its result alone**, whichever call it is and through whichever
transforms. -/
theorem concerns_call (h : Handle V) (call : Call) : Concerns h.cell fun s => s.call h call := by
  simp only [call_eq]
  cases call with
  | wait => exact concerns_waited (·.wait .unbounded) fun _ => .done
  | waitFinal => exact concerns_waited (·.waitFinal .unbounded) fun _ => .done
  | waitFor p => exact concerns_waited (·.wait p) .flag
  | waitFinalFor p => exact concerns_waited (·.waitFinal p) .flag
  | cancelAfter p =>
    refine ⟨fun c => (c.cancelAfter p).elim .blocked (.flag ·.1),
      fun c => (c.cancelAfter p).elim c (·.2), fun _ => [], fun s => ?_⟩
    simp only [callThrough, Control.direct]
    cases (s.store.cell h.cell).cancelAfter p with
    | some r =>
      rw [List.append_nil]
      rfl
    | none => exact congrArg (Prod.mk _) (eq_setCell_cell s h.cell)
  | cancel => exact concerns_setCell (.flag ·.cancel.1) (·.cancel.2)
  | tryGet => exact concerns_retrieve (h.chain.get ·) (·.value) .value
  | tryTake => exact concerns_retrieve (h.chain.take ·) (·.value) .value
  | tryTakeFinal => exact concerns_retrieve (h.chain.takeFinal ·) (·.value) .value
  | getOrCancel => exact concerns_settled fun c => some (h.chain.getOrCancel c)
  | getOrCancelAfter p => exact concerns_settled (h.chain.getOrCancelAfter p)
  | takeOrCancelAfter p => exact concerns_settled (h.chain.takeOrCancelAfter p)

end WireForm.Sync.Session
