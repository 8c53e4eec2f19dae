import WireForm.Proofs.Settlement

/-!
# Consumers see the latest live value

What a consumer finds is decided by the last thing that happened to the result: a value, if that was
set last, and otherwise nothing, since it was cancelled or taken meanwhile. A value that is only
provisional can be looked at and taken like a final one, but not by a call that asks for the final
value. A callback that gives no value is not a thing that happens.

So a value that was set once is taken at most once, and after the final one was taken there is
nothing to be had any more, through whichever handle and however a call asks for it.

## Main definitions

* `Session.Latest` — the value that was set last, and neither cancelled nor taken since
* `Session.Exhausted` — calls get nothing from a result

## Main results

* `Session.exhausted_of_taken` — from a provided result without a value
* `retrievals_show_latest` — all of it, for runs from the start
-/

namespace WireForm.Sync

variable {V : Type}

namespace Session

variable {s : Session V} {id : Nat} {v : V}

/-- In a run from the start, the last thing that happened to the result was that this value was
set. So nobody has cancelled the result or taken the value since. -/
def Latest (actions : List (Action V)) (id : Nat) (v : V) : Prop :=
  ∃ earlier isFinal, start.history id actions = earlier ++ [.set v isFinal]

theorem get_run_eq_some (actions : List (Action V)) (id : Nat) :
    ((start.run actions).2.store.cell id).get = some v ↔ Latest actions id v := by
  obtain ⟨-, hreplay⟩ := records_start actions id
  have hget : ((start.run actions).2.store.cell id).get = _ := congrArg Slot.value hreplay
  rw [hget]
  exact Slot.value_replay_eq_some rfl

/-- What a call that asks for the present value answers through no transforms. -/
theorem fetched_eq_some {r : Retrieval V V} {b : Option V} (h : r.value = .ok b) :
    (s.retrieve id r r.value .value).1 = .value (some v) ↔ b = some v := by
  rw [h]
  exact iff_of_eq (Reply.value.injEq _ _)

theorem takeFinal_eq_some {c : Cell V} (hc : c.Coherent) :
    c.takeFinal.1 = some v ↔ c.get = some v ∧ c.state = .provided := by
  have hstate (hvalue : c.get = some v) : c.state ≠ .cancelled := by
    intro hcancelled
    have hnone : c.get = none := hc.sound (Or.inr hcancelled)
    rw [hnone] at hvalue
    cases hvalue
  cases hfinal : c.state.isFinal with
  | true =>
    rw [hc.takeFinal_of_final hfinal]
    refine ⟨fun hvalue => ⟨hvalue, ?_⟩, fun h => h.1⟩
    exact (State.isFinal_iff.mp hfinal).resolve_right (hstate hvalue)
  | false =>
    rw [hc.takeFinal_of_pending hfinal]
    refine ⟨nofun, fun h => ?_⟩
    rw [h.2] at hfinal
    cases hfinal

/-- A callback that gives nothing changes nothing, not even the session. -/
theorem perform_nothing (hs : s.Sound) (name : String) (isFinal : Bool) :
    (s.perform (.produce name .nothing isFinal)).2 = s := by
  rw [perform, withProvider]
  split
  · rename_i id _
    have hc := hs.coherent id
    have hsame : ((s.store.cell id).produce .nothing isFinal).2 = s.store.cell id := by
      cases hfinal : (s.store.cell id).state.isFinal with
      | true => rw [hc.produce_of_final hfinal]
      | false =>
        rw [hc.produce_of_pending hfinal]
        exact hc.eq_ofSlot.symm
    show s.setCell id ((s.store.cell id).produce .nothing isFinal).2 = s
    rw [hsame, setCell, Store.setCell_cell]
  · rfl

/-- Whoever asks for the value of this result, through whichever handle, gets none, and hears that
it was taken where a reason is given. -/
structure Exhausted (s : Session V) (id : Nat) : Prop where
  /-- There is nothing to look at. -/
  tryGet : ∀ h : Handle V, h.cell = id → (s.call h .tryGet).1 = .value none
  /-- There is nothing to take. -/
  tryTake : ∀ h : Handle V, h.cell = id → (s.call h .tryTake).1 = .value none
  /-- There is no final value. -/
  tryTakeFinal : ∀ h : Handle V, h.cell = id → (s.call h .tryTakeFinal).1 = .value none
  /-- The value was taken, says a call that would cancel. -/
  getOrCancel : ∀ h : Handle V, h.cell = id → (s.call h .getOrCancel).1 = .unavailable .taken
  /-- So says one that would wait and cancel, and look at the value. -/
  getOrCancelAfter : ∀ (h : Handle V) p, h.cell = id →
    (s.call h (.getOrCancelAfter p)).1 = .unavailable .taken
  /-- And one that would wait and cancel, and take the value. -/
  takeOrCancelAfter : ∀ (h : Handle V) p, h.cell = id →
    (s.call h (.takeOrCancelAfter p)).1 = .unavailable .taken

theorem retrieve_settled_of_none {r : Retrieval V V} (hvalue : r.value = .ok none)
    (hstate : r.cell.state ≠ .cancelled) :
    (s.retrieve id r (r.settled .direct) settledReply).1 = .unavailable .taken := by
  rw [r.settled_of_none hvalue, if_neg hstate]
  rfl

theorem exhausted_of_taken (hs : s.Sound) (hstate : (s.store.cell id).state = .provided)
    (hvalue : (s.store.cell id).get = none) : s.Exhausted id := by
  have hc := hs.coherent id
  have hfinal : (s.store.cell id).state.isFinal = true := by
    rw [hstate]
    rfl
  have hget (ch : Chain V V) : (ch.get (s.store.cell id)).value = .ok none :=
    ch.value_get_of_none hvalue
  have htake (ch : Chain V V) : (ch.take (s.store.cell id)).value = .ok none :=
    ch.value_take_eq_none.mpr hvalue
  have htakeFinal (ch : Chain V V) : (ch.takeFinal (s.store.cell id)).value = .ok none := by
    rw [ch.value_takeFinal_eq_none, hc.takeFinal_of_final hfinal]
    exact hvalue
  have hseen (ch : Chain V V) : (ch.get (s.store.cell id)).cell.state ≠ .cancelled := by
    rw [ch.cell_get, hstate]
    exact State.noConfusion
  have htaken (ch : Chain V V) : (ch.takeFinal (s.store.cell id)).cell.state ≠ .cancelled := by
    rw [ch.cell_takeFinal, hc.takeFinal_of_final hfinal, take_of_none hvalue, hstate]
    exact State.noConfusion
  have hfetched {r : Retrieval V V} (h : r.value = .ok none) :
      (s.retrieve id r r.value .value).1 = .value none := by
    rw [h]
    rfl
  exact
    { tryGet := fun h hcell => by
        subst hcell
        exact hfetched (hget h.chain)
      tryTake := fun h hcell => by
        subst hcell
        exact hfetched (htake h.chain)
      tryTakeFinal := fun h hcell => by
        subst hcell
        exact hfetched (htakeFinal h.chain)
      getOrCancel := fun h hcell => by
        subst hcell
        simp only [call_eq, callThrough, Chain.getOrCancel_eq, hc.cancel_of_final hfinal]
        exact retrieve_settled_of_none (hget h.chain) (hseen h.chain)
      getOrCancelAfter := fun h p hcell => by
        subst hcell
        simp only [call_eq, callThrough, Chain.getOrCancelAfter_eq, hc.cancelAfter_of_final hfinal,
          Option.map_some]
        exact retrieve_settled_of_none (hget h.chain) (hseen h.chain)
      takeOrCancelAfter := fun h p hcell => by
        subst hcell
        simp only [call_eq, callThrough, Chain.takeOrCancelAfter_eq, hc.cancelAfter_of_final hfinal,
          Option.map_some]
        exact retrieve_settled_of_none (htakeFinal h.chain) (htaken h.chain) }

/-- Once the final value was taken, nothing happens to the result any more. -/
theorem provided_run_of_taken (hs : s.Sound) (ho : s.Owned) {a : Action V}
    (htaken : s.event? id a = some .taken) (hstate : (s.store.cell id).state = .provided)
    (after : List (Action V)) :
    let c := ((s.perform a).2.run after).2.store.cell id
    c.state = .provided ∧ c.get = none := by
  obtain ⟨-, hslot⟩ := records_perform hs ho a id
  rw [htaken] at hslot
  have hprovided : ((s.perform a).2.store.cell id).state = .provided :=
    (congrArg Slot.state hslot).trans hstate
  have hvalue : ((s.perform a).2.store.cell id).get = none := congrArg Slot.value hslot
  obtain ⟨hadmits, hreplay⟩ := records_run (hs.perform a) (ho.perform hs a) after id
  have hnothing : (s.perform a).2.history id after = [] := by
    refine (hadmits.eq_of_final ?_).resolve_right fun h => h.2 hvalue
    rw [show ((s.perform a).2.store.cell id).slot.value.state = .provided from hprovided]
    rfl
  rw [hnothing] at hreplay
  exact ⟨(congrArg Slot.state hreplay).trans hprovided, (congrArg Slot.value hreplay).trans hvalue⟩

/-- So it has nothing more to give. -/
theorem exhausted_run_of_taken (hs : s.Sound) (ho : s.Owned) {a : Action V}
    (htaken : s.event? id a = some .taken) (hstate : (s.store.cell id).state = .provided)
    (after : List (Action V)) : ((s.perform a).2.run after).2.Exhausted id := by
  obtain ⟨hprovided, hvalue⟩ := provided_run_of_taken hs ho htaken hstate after
  exact exhausted_of_taken ((hs.perform a).run after) hprovided hvalue

end Session

/-- **Consumers see exactly the latest live value, and each value is taken at most once.** Through
no transforms, looking or taking gives a value just when that was set last, by whatever call, and
was neither cancelled nor taken since; taking the final value gives it just when, moreover, it was
provided for good. A callback that gives none changes nothing. Between two calls that take a value
from a result one is set, and after the final value was taken every later call gets none. -/
theorem retrievals_show_latest {V : Type} :
    (∀ (actions : List (Action V)) (id : Nat) (v : V),
      let s := (Session.start.run actions).2
      let plain : Handle V := ⟨id, .direct⟩
      ((s.call plain .tryGet).1 = .value (some v) ↔ Session.Latest actions id v) ∧
      ((s.call plain .tryTake).1 = .value (some v) ↔ Session.Latest actions id v) ∧
      ((s.call plain .tryTakeFinal).1 = .value (some v) ↔
        Session.Latest actions id v ∧ (s.store.cell id).state = .provided)) ∧
    (∀ (actions : List (Action V)) (name : String) (isFinal : Bool),
      let s := (Session.start.run actions).2
      (s.perform (.produce name .nothing isFinal)).2 = s) ∧
    (∀ (actions : List (Action V)) (id : Nat) (before between after : List (Event V)),
      Session.start.history id actions = before ++ .taken :: (between ++ .taken :: after) →
      ∃ v isFinal, .set v isFinal ∈ between) ∧
    (∀ (before after : List (Action V)) (a : Action V) (id : Nat),
      let s := (Session.start.run before).2
      s.event? id a = some .taken → (s.store.cell id).state = .provided →
      (Session.start.run (before ++ a :: after)).2.Exhausted id) := by
  refine ⟨fun actions id v => ?_, fun actions name isFinal => ?_,
    fun actions id before between after hhistory => ?_,
    fun before after a id htaken hstate => ?_⟩
  · intro s plain
    have hlatest := Session.get_run_eq_some (v := v) actions id
    have hc := (Session.sound_start.run actions).coherent id
    refine ⟨?_, ?_, ?_⟩
    · exact (Session.fetched_eq_some rfl).trans hlatest
    · exact (Session.fetched_eq_some rfl).trans hlatest
    · rw [← hlatest, ← Session.takeFinal_eq_some hc]
      exact Session.fetched_eq_some rfl
  · exact Session.perform_nothing (Session.sound_start.run actions) name isFinal
  · obtain ⟨hadmits, -⟩ := Session.records_start actions id
    rw [hhistory] at hadmits
    exact hadmits.exists_set
  · have hs := Session.sound_start.run before
    have ho := Session.owned_start.run Session.sound_start before
    rw [Session.run_append, Session.run_cons]
    exact Session.exhausted_run_of_taken hs ho htaken hstate after

/-- A provisional value is taken and replaced by a final one, which is taken through a transform
that crashes on it. -/
theorem retrievals_show_latest_at_crash :
    let before : List (Action Nat) := [.provider "p", .consumer "p" "c", .update "p" 1,
      .call "c" .tryTake, .provide "p" 2, .clone "c" "d", .map true ⟨0, fun _ => crash⟩ "d" "e"]
    let take : Action Nat := .call "e" .tryTakeFinal
    let s := (Session.start.run before).2
    Session.start.history 0 (before ++ [take]) =
        [.set 1 false] ++ .taken :: ([.set 2 true] ++ .taken :: []) ∧
      (∃ v isFinal, Event.set v isFinal ∈ [Event.set 2 true]) ∧
      s.event? 0 take = some .taken ∧ (s.store.cell 0).state = .provided ∧
      (Session.start.run (before ++ [take, .update "p" 3])).2.Exhausted 0 := by
  intro before take s
  obtain ⟨-, -, htakes, hexhausted⟩ := retrievals_show_latest (V := Nat)
  have hhistory : Session.start.history 0 (before ++ [take]) =
      [.set 1 false] ++ .taken :: ([.set 2 true] ++ .taken :: []) := rfl
  have htaken : s.event? 0 take = some .taken := rfl
  exact ⟨hhistory, htakes (before ++ [take]) 0 [.set 1 false] [.set 2 true] [] hhistory, htaken,
    rfl, hexhausted before [.update "p" 3] take 0 htaken rfl⟩

end WireForm.Sync
