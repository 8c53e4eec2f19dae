import WireForm.Proofs.Recording

/-!
# Results are settled once and for good

A result can be settled in many ways: by a final value or a callback that gives one, by a callback
that fails or crashes, by a provider or a consumer that cancels, by a consumer that has waited long
enough, by a provider that goes away, or by a queue. Each of these reports whether it was the one.
However they are mixed, at most one of them was, and it was just when the result is final.

From then on the state stays, the value can still be taken, once, and every other call about the
result finds that there is nothing left to do: it says so, gives back what it was given, and runs no
callback.

## Main definitions

* `Session.Refuses` — how a final result answers to calls that would settle or replace it

## Main results

* `Session.refuses_of_final` — a final result does so
* `results_settle_once` — all of it, for runs from the start
-/

namespace WireForm.Sync

variable {V : Type}

namespace Session

variable {s : Session V} {id : Nat}

theorem withProvider_of_some {name : String} (h : s.providers.lookup name = some id)
    (f : Nat → Cell V → Reply V × Session V) : s.withProvider name f = f id (s.store.cell id) := by
  rw [withProvider, h]

/-- Calls that would settle the result or replace its value leave the session as it is and say that
they did nothing. A value that was not needed is given back, and no callback is run. -/
structure Refuses (s : Session V) (id : Nat) : Prop where
  /-- No value is provided. -/
  provide : ∀ name v, s.providers.lookup name = some id →
    s.perform (.provide name v) = (.flag false, s)
  /-- A value that is offered is given back. -/
  tryProvide : ∀ name v, s.providers.lookup name = some id →
    s.perform (.tryProvide name v) = (.returned v, s)
  /-- No provisional value is set. -/
  update : ∀ name v, s.providers.lookup name = some id →
    s.perform (.update name v) = (.flag false, s)
  /-- No callback runs, whatever it would come to. -/
  produce : ∀ name produced isFinal, s.providers.lookup name = some id →
    s.perform (.produce name produced isFinal) = (.produced (s.store.cell id).state false, s)
  /-- The provider cannot cancel. -/
  cancelProvider : ∀ name, s.providers.lookup name = some id →
    s.perform (.cancelProvider name) = (.flag false, s)
  /-- Nor can a consumer. -/
  cancel : ∀ h : Handle V, h.cell = id → s.call h .cancel = (.flag false, s)
  /-- A consumer that is to cancel after some time finds the result in time. -/
  cancelAfter : ∀ (h : Handle V) p, h.cell = id → s.call h (.cancelAfter p) = (.flag true, s)

theorem refuses_of_final (hs : s.Sound) (hfinal : (s.store.cell id).state.isFinal = true) :
    s.Refuses id := by
  have hc := hs.coherent id
  have hset : s.setCell id (s.store.cell id) = s := by rw [setCell, Store.setCell_cell]
  exact
    { provide := fun name v hname => by
        rw [perform, withProvider_of_some hname, hc.provide_of_final hfinal]
        exact congrArg (Prod.mk _) hset
      tryProvide := fun name v hname => by
        rw [perform, withProvider_of_some hname, hc.provide_of_final hfinal]
        exact congrArg (Prod.mk _) hset
      update := fun name v hname => by
        rw [perform, withProvider_of_some hname, hc.update_of_final hfinal]
        exact congrArg (Prod.mk _) hset
      produce := fun name produced isFinal hname => by
        rw [perform, withProvider_of_some hname, hc.produce_of_final hfinal]
        exact congrArg (Prod.mk _) hset
      cancelProvider := fun name hname => by
        rw [perform, withProvider_of_some hname, hc.cancel_of_final hfinal]
        exact congrArg (Prod.mk _) hset
      cancel := fun h hcell => by
        subst hcell
        simp only [call_eq, callThrough, Control.direct, hc.cancel_of_final hfinal, hset]
      cancelAfter := fun h p hcell => by
        subst hcell
        simp only [call_eq, callThrough, Control.direct, hc.cancelAfter_of_final hfinal, hset] }

end Session

/-- **A result is settled at most once, and for good.** Of all calls of a run, exactly one has
settled a result that is final, and none has settled one that is not. Whatever is called once a
result is final, the state stays, and either nothing happens to the value or it is taken, by one
call; calls that would settle the result or replace its value do nothing and say so. -/
theorem results_settle_once {V : Type} (before after : List (Action V)) (id : Nat) :
    let s := (Session.start.run before).2
    let s' := (Session.start.run (before ++ after)).2
    (Session.start.history id before).countP Event.settles =
        (if (s.store.cell id).state.isFinal then 1 else 0) ∧
      ((s.store.cell id).state.isFinal = true →
        (s'.store.cell id).state = (s.store.cell id).state ∧
        ((s.history id after = [] ∧ (s'.store.cell id).get = (s.store.cell id).get) ∨
          (s.history id after = [.taken] ∧ (s.store.cell id).get ≠ none ∧
            (s'.store.cell id).get = none)) ∧
        s'.Refuses id) := by
  intro s s'
  have hs : s.Sound := Session.sound_start.run before
  have ho : s.Owned := Session.owned_start.run Session.sound_start before
  constructor
  · obtain ⟨hadmits, hreplay⟩ := Session.records_start before id
    have hcount := hadmits.count_settles
    rw [← hreplay] at hcount
    have hsettled : (Session.start.history id before).countP Event.settles =
        (s.store.cell id).state.isFinal.toNat := hcount
    rw [hsettled]
    cases (s.store.cell id).state.isFinal <;> rfl
  · intro hfinal
    have hrun : s' = (s.run after).2 := Session.run_append _ _ _
    have hstate : (s'.store.cell id).state = (s.store.cell id).state := by
      rw [hrun]
      exact (Session.evolves_run hs after).state_eq hs.coherent hfinal
    obtain ⟨hadmits, hreplay⟩ := Session.records_run hs ho after id
    rw [← hrun] at hreplay
    refine ⟨hstate, ?_, Session.refuses_of_final (hrun ▸ hs.run after) (hstate ▸ hfinal)⟩
    rcases hadmits.eq_of_final hfinal with hnothing | ⟨htaken, hvalue⟩
    · rw [hnothing] at hreplay
      exact Or.inl ⟨hnothing, congrArg Slot.value hreplay⟩
    · rw [htaken] at hreplay
      exact Or.inr ⟨htaken, hvalue, congrArg Slot.value hreplay⟩

/-- A value is set for the time being and taken, a callback gives the final one, and then a
provisional value, a cancelling consumer and a provider that goes away come too late. -/
theorem results_settle_once_at_late_update :
    let before : List (Action Nat) := [.provider "p", .consumer "p" "c", .update "p" 1,
      .call "c" .tryTake, .produce "p" (.value 2) true]
    let after : List (Action Nat) := [.update "p" 3, .call "c" .getOrCancel, .call "c" .tryTake,
      .call "c" .tryTake, .dropProvider "p"]
    let s := (Session.start.run before).2
    let s' := (Session.start.run (before ++ after)).2
    Session.start.history 0 before = [.set 1 false, .taken, .set 2 true] ∧
      (s.store.cell 0).state.isFinal = true ∧ (s'.store.cell 0).state = .provided ∧
      s.history 0 after = [.taken] ∧ s'.Refuses 0 := by
  intro before after s s'
  obtain ⟨-, hlater⟩ := results_settle_once before after 0
  obtain ⟨hstate, -, hrefuses⟩ := hlater rfl
  exact ⟨rfl, rfl, hstate, rfl, hrefuses⟩

end WireForm.Sync
