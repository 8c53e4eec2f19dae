import WireForm.Proofs.FinalReading
import WireForm.Proofs.MappedConsumer

/-!
# Final reads that see nothing

A consumer behind a transform of values that are taken can ask for the final value without taking
it. It never sees one. The result is settled all the same, and then the missing value is explained
by the state alone, as for any other consumer: a provided result must have been taken.

For such a consumer that is a guess. It is right if a call has taken the final value before, and
then nobody gets the value any more. In every other case it is wrong, and the value is still there
to be taken. What can be relied on is less than the answer says: the result was provided if it is
said that it was taken, and was not if it is said that it was cancelled.

## Main definitions

* `Call.LooksForFinal` — calls that settle the result and look at its value

## Main results

* `Chain.get_of_owned` — there is nothing to see
* `Session.call_of_owned` — what is answered, and what happens to the result
* `Session.exhausted_iff_tookFinal`, `Session.exists_take_iff` — whether the answer is right
* `owned_reads_guess`
-/

namespace WireForm.Sync

/-- Behind a transform of values that are taken there is nothing to see, and no transform is
called. -/
theorem Chain.get_of_owned {α β : Type} {ch : Chain α β} (h : ch.isOwned = true) (c : Cell α) :
    ch.get c = ⟨.ok none, [], c⟩ := by
  induction ch with
  | direct => cases h
  | map base f ih =>
    rw [get, ih h]
    rfl
  | mapOwned base f ih => rfl

/-- The call settles the result, which is in this state, and looks at its value. One that would wait
for ever does not. -/
inductive Call.LooksForFinal (state : State) : Call → Prop where
  | getOrCancel : LooksForFinal state .getOrCancel
  | getOrCancelAfter (p : Patience) (h : state.isFinal = true ∨ p = .bounded) :
    LooksForFinal state (.getOrCancelAfter p)

namespace Session

variable {V : Type} {s : Session V} {id : Nat} {h : Handle V}

/-- A value that is missing from a settled result is explained by the state. -/
theorem afterSettling_of_none (hc : (s.store.cell id).Coherent) :
    s.afterSettling id (some ⟨.ok none, [], (s.store.cell id).cancel.2⟩) =
      (.unavailable (if (s.store.cell id).state = .provided then .taken else .cancelled),
        s.setCell id (s.store.cell id).cancel.2) := by
  have hcalls : ({ s.setCell id (s.store.cell id).cancel.2 with calls := s.calls ++ [] }) =
      s.setCell id (s.store.cell id).cancel.2 := by
    rw [List.append_nil]
    rfl
  rw [afterSettling, Retrieval.settled_of_none _ rfl]
  refine Prod.ext ?_ hcalls
  by_cases hprovided : (s.store.cell id).state = .provided
  · rw [if_pos hprovided, hc.cancel_of_provided hprovided, hprovided]
    rfl
  · rw [if_neg hprovided, hc.cancel_of_ne_provided hprovided]
    rfl

/-- **A read that sees nothing answers by the state alone**, and changes the result as any other. -/
theorem call_of_owned (hs : s.Sound) (hch : h.chain.isOwned = true) {call : Call}
    (hcall : call.LooksForFinal (s.store.cell h.cell).state) : s.call h call =
      (.unavailable (if (s.store.cell h.cell).state = .provided then .taken else .cancelled),
        s.setCell h.cell (s.store.cell h.cell).cancel.2) := by
  have hc := hs.coherent h.cell
  cases hcall with
  | getOrCancel => rw [call_getOrCancel, Chain.get_of_owned hch, afterSettling_of_none hc]
  | getOrCancelAfter p hp =>
    obtain ⟨inTime, hcancel⟩ := hc.cancelAfter_eq hp
    rw [call_getOrCancelAfter, hcancel, Option.map_some, Chain.get_of_owned hch,
      afterSettling_of_none hc]

/-! ### Whether it is right -/

section Provided

variable {actions : List (Action V)}

/-- Nobody gets a value from a provided result just when a call has taken the final one. -/
theorem exhausted_iff_tookFinal
    (hstate : ((start.run actions).2.store.cell id).state = .provided) :
    (start.run actions).2.Exhausted id ↔ start.TookFinal actions id := by
  have hs : (start.run actions).2.Sound := sound_start.run actions
  rw [← get_eq_none_iff_tookFinal hstate]
  refine ⟨fun h => ?_, exhausted_of_taken hs hstate⟩
  exact Reply.value.inj (h.tryGet ⟨id, .direct⟩ rfl)

/-- If no call has, whoever takes the value gets it. -/
theorem exists_take_iff (hstate : ((start.run actions).2.store.cell id).state = .provided) :
    (∃ v, ((start.run actions).2.call ⟨id, .direct⟩ .tryTake).1 = .value (some v)) ↔
      ¬ start.TookFinal actions id := by
  rw [← get_eq_none_iff_tookFinal hstate, ← ne_eq, Option.ne_none_iff_exists']
  exact exists_congr fun v => fetched_eq_some rfl

end Provided

end Session

/-- **A final read that sees nothing says that a provided value was taken, whether or not it was.**
After any run, and through any transforms of which one is of values that are taken, the answer is
that the value was taken just when the result was provided, and that the result was cancelled just
when it was not, which it then is. A provided result stays as it is. So the answer is right just
when a call of the run has taken the final value and nobody gets it any more; if none has, the value
can still be taken. -/
theorem owned_reads_guess {V : Type} (before : List (Action V)) (name : String) (h : Handle V)
    (hname : (Session.start.run before).2.store.handles.lookup name = some h)
    (hch : h.chain.isOwned = true) (call : Call)
    (hcall : call.LooksForFinal ((Session.start.run before).2.store.cell h.cell).state) :
    let s := (Session.start.run before).2
    let state := (s.store.cell h.cell).state
    let taken := Session.start.TookFinal before h.cell
    let x := s.perform (.call name call)
    (x.1 = .unavailable .taken ↔ state = .provided) ∧
    (x.1 = .unavailable .cancelled ↔ state ≠ .provided) ∧
    (state = .provided → x.2 = s ∧ (s.Exhausted h.cell ↔ taken) ∧
      ((∃ v, (s.call ⟨h.cell, .direct⟩ .tryTake).1 = .value (some v)) ↔ ¬ taken)) ∧
    (state ≠ .provided → x.2.store.cell h.cell = .ofSlot .cancelled) := by
  intro s state taken x
  have hs : s.Sound := Session.sound_start.run before
  have hid : h.cell < s.store.cells.length :=
    (Session.owned_start.run Session.sound_start before).consumers_lt h.cell
      (Store.hasConsumers_of_lookup hname (Or.inl rfl))
  have hx : x = (.unavailable (if state = .provided then .taken else .cancelled),
      s.setCell h.cell (s.store.cell h.cell).cancel.2) :=
    (Session.withConsumer_of_some hname _).trans (Session.call_of_owned hs hch hcall)
  rw [hx]
  refine ⟨?_, ?_, fun hprovided => ⟨?_, Session.exhausted_iff_tookFinal hprovided,
    Session.exists_take_iff hprovided⟩, fun hother => ?_⟩
  · by_cases hprovided : state = .provided <;> simp [hprovided]
  · by_cases hprovided : state = .provided <;> simp [hprovided]
  · rw [(hs.coherent h.cell).cancel_of_provided hprovided, Session.setCell, Store.setCell_cell]
  · exact (Store.cell_setCell_self hid).trans ((hs.coherent h.cell).cancel_of_ne_provided hother)

/-- Two consumers of a result to which a value was provided, one of them behind a transform of
values that are taken. -/
def providedToTwo : List (Action Nat) :=
  [.provider "p", .consumer "p" "c", .clone "c" "d", .map true (.pure 0 (· + 1)) "d" "e",
    .provide "p" 7]

/-- The other consumer takes the value, and then the answer is right. -/
theorem owned_reads_guess_at_taken :
    let before := providedToTwo ++ [.call "c" .tryTakeFinal]
    let s := (Session.start.run before).2
    (∃ h, s.store.handles.lookup "e" = some h ∧ h.chain.isOwned = true) ∧
    Call.getOrCancel.LooksForFinal (s.store.cell 0).state ∧ (s.store.cell 0).state = .provided ∧
    (s.perform (.call "e" .getOrCancel)).1 = .unavailable .taken ∧
    Session.start.TookFinal before 0 ∧ s.Exhausted 0 := by
  intro before s
  have hlooks : Call.getOrCancel.LooksForFinal (s.store.cell 0).state := .getOrCancel
  obtain ⟨htaken, -, hprovided, -⟩ := owned_reads_guess before "e" _ rfl rfl .getOrCancel hlooks
  have htook : Session.start.TookFinal before 0 :=
    ⟨providedToTwo, .call "c" .tryTakeFinal, [], rfl, rfl, rfl⟩
  exact ⟨⟨_, rfl, rfl⟩, hlooks, rfl, htaken.mpr rfl, htook, (hprovided rfl).2.1.mpr htook⟩

/-- Nobody takes the value, and both reads say that it was taken. The other consumer then takes it.
-/
theorem taken_is_said_of_a_value_that_is_there :
    let s := (Session.start.run providedToTwo).2
    (∃ h, s.store.handles.lookup "e" = some h ∧ h.cell = 0 ∧ h.chain.isOwned = true) ∧
    ¬ Session.start.TookFinal providedToTwo 0 ∧
    (s.perform (.call "e" .getOrCancel)).1 = .unavailable .taken ∧
    (s.perform (.call "e" (.getOrCancelAfter .bounded))).1 = .unavailable .taken ∧
    ((s.perform (.call "e" .getOrCancel)).2.perform (.call "c" .tryTake)).1 = .value (some 7) := by
  intro s
  have hkept : ¬ Session.start.TookFinal providedToTwo 0 := by
    rw [← Session.get_eq_none_iff_tookFinal rfl]
    exact Option.some_ne_none 7
  exact ⟨⟨_, rfl, rfl, rfl⟩, hkept, rfl, rfl, rfl⟩

end WireForm.Sync
