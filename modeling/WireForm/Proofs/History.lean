import WireForm.Sync.OneShot

/-!
# Histories of results

Three things can happen to a result: a value is set, for good or for the time being, the result is
cancelled, or the value is taken. Where they happen only when they can, a history of them is all
there is to know. Replayed on a slot of which nothing is known it gives the state and the value of
the result, so what a retrieval gives, and how often a result is settled, are facts about histories
and need no look at the calls.

## Main definitions

* `Event`, `Slot.record`, `Slot.replay` — what can happen, and what it does to a slot
* `Slot.Admits`, `Slot.AdmitsAll` — what can happen to a slot, and in which order
* `Slot.Records` — one event, or none, between two slots

## Main results

* `Slot.AdmitsAll.count_settles` — a result is settled once
* `Slot.value_replay_eq_some` — the value is that of the last event
* `Slot.AdmitsAll.exists_set` — between two takes a value is set
* `Slot.AdmitsAll.eq_of_final` — of a final result only the value can be taken, and once
-/

namespace WireForm.Sync

variable {V : Type}

/-! ### Events -/

/-- What happens to a result. -/
inductive Event (V : Type) where
  /-- A value was set, for good or for the time being. -/
  | set (v : V) (isFinal : Bool)
  /-- The result was cancelled. -/
  | cancelled
  /-- The value was taken. -/
  | taken
  deriving DecidableEq, Repr

/-- Whether an event settles the result. -/
def Event.settles : Event V → Bool
  | .set _ isFinal => isFinal
  | .cancelled => true
  | .taken => false

namespace Slot

/-- A slot after an event. -/
def record (s : Slot V) : Event V → Slot V
  | .set v isFinal => ⟨some v, if isFinal then .provided else .partiallyProvided⟩
  | .cancelled => .cancelled
  | .taken => { s with value := none }

/-- An event that can happen: values are set and results cancelled while they are not final, and a
value is taken where there is one. -/
def Admits (s : Slot V) : Event V → Prop
  | .set _ _ | .cancelled => s.state.isFinal = false
  | .taken => s.value ≠ none

/-- A slot after some events. -/
def replay (s : Slot V) (events : List (Event V)) : Slot V := events.foldl record s

/-- Events that can happen one after the other. -/
def AdmitsAll : Slot V → List (Event V) → Prop
  | _, [] => True
  | s, e :: events => s.Admits e ∧ (s.record e).AdmitsAll events

/-- The slot of which nothing is known. -/
def blank : Slot V := ⟨none, .undecided⟩

variable {s : Slot V} {v : V} {events events' : List (Event V)}

theorem replay_append (s : Slot V) (events events' : List (Event V)) :
    s.replay (events ++ events') = (s.replay events).replay events' := List.foldl_append

theorem admitsAll_append :
    s.AdmitsAll (events ++ events') ↔ s.AdmitsAll events ∧ (s.replay events).AdmitsAll events' := by
  induction events generalizing s with
  | nil => simp [AdmitsAll, replay]
  | cons e events ih =>
    rw [List.cons_append, AdmitsAll, ih, AdmitsAll, and_assoc]
    rfl

/-- An event that can happen makes a slot final just when it settles the result, and otherwise
leaves it as final as it was. -/
theorem isFinal_record {e : Event V} (h : s.Admits e) :
    (s.record e).state.isFinal = (s.state.isFinal || e.settles) := by
  cases e with
  | set v isFinal =>
    rw [show s.state.isFinal = false from h]
    cases isFinal <;> rfl
  | cancelled =>
    rw [show s.state.isFinal = false from h]
    rfl
  | taken => exact (Bool.or_false _).symm

/-- What settles a result happens to one that is not final. -/
theorem isFinal_of_settles {e : Event V} (h : s.Admits e) (hsettles : e.settles = true) :
    s.state.isFinal = false := by
  cases e with
  | set v isFinal => exact h
  | cancelled => exact h
  | taken => cases hsettles

/-- **A result is settled once**, and it is final from then on. -/
theorem AdmitsAll.count_settles (h : s.AdmitsAll events) :
    events.countP Event.settles + s.state.isFinal.toNat =
      (s.replay events).state.isFinal.toNat := by
  induction events generalizing s with
  | nil => exact Nat.zero_add _
  | cons e events ih =>
    obtain ⟨hadmits, hrest⟩ := h
    have hstep := ih hrest
    rw [isFinal_record hadmits] at hstep
    rw [List.countP_cons, show s.replay (e :: events) = (s.record e).replay events from rfl,
      ← hstep]
    cases hsettles : e.settles with
    | true =>
      rw [isFinal_of_settles hadmits hsettles]
      simp
    | false => simp

/-- **The value is that of the last event**, if that set one. -/
theorem value_replay_eq_some (hs : s.value = none) :
    (s.replay events).value = some v ↔ ∃ earlier isFinal, events = earlier ++ [.set v isFinal] := by
  rcases events.eq_nil_or_concat with rfl | ⟨earlier, last, rfl⟩
  · simp [replay, hs]
  · rw [List.concat_eq_append, replay_append]
    constructor
    · intro h
      cases last with
      | set w isFinal =>
        obtain rfl : w = v := Option.some.inj h
        exact ⟨earlier, isFinal, rfl⟩
      | cancelled => cases h
      | taken => cases h
    · rintro ⟨earlier', isFinal, heq⟩
      obtain ⟨-, hlast⟩ := List.append_inj' heq rfl
      rw [List.singleton_inj.mp hlast]
      rfl

/-- Nothing but setting a value brings one. -/
theorem exists_set_of_value_ne_none (hs : s.value = none) (h : (s.replay events).value ≠ none) :
    ∃ v isFinal, .set v isFinal ∈ events := by
  obtain ⟨v, hv⟩ := Option.ne_none_iff_exists'.mp h
  obtain ⟨earlier, isFinal, rfl⟩ := (value_replay_eq_some hs).mp hv
  exact ⟨v, isFinal, List.mem_append_right _ (List.mem_singleton_self _)⟩

/-- **Between two takes a value is set**, so no value that was set once is taken twice. -/
theorem AdmitsAll.exists_set {before between after : List (Event V)}
    (h : s.AdmitsAll (before ++ .taken :: (between ++ .taken :: after))) :
    ∃ v isFinal, .set v isFinal ∈ between := by
  obtain ⟨-, -, hrest⟩ := admitsAll_append.mp h
  obtain ⟨-, htaken, -⟩ := admitsAll_append.mp hrest
  exact exists_set_of_value_ne_none rfl htaken

/-- A final result is not set or cancelled any more. Its value can be taken, and then nothing can
happen. -/
theorem AdmitsAll.eq_of_final (h : s.AdmitsAll events) (hfinal : s.state.isFinal = true) :
    events = [] ∨ events = [.taken] ∧ s.value ≠ none := by
  have htaken {s : Slot V} {e : Event V} (he : s.Admits e) (hfinal : s.state.isFinal = true) :
      e = .taken ∧ s.value ≠ none := by
    cases e with
    | set v isFinal =>
      rw [show s.state.isFinal = false from he] at hfinal
      cases hfinal
    | cancelled =>
      rw [show s.state.isFinal = false from he] at hfinal
      cases hfinal
    | taken => exact ⟨rfl, he⟩
  cases events with
  | nil => exact Or.inl rfl
  | cons e events =>
    obtain ⟨he, hrest⟩ := h
    obtain ⟨rfl, hvalue⟩ := htaken he hfinal
    cases events with
    | nil => exact Or.inr ⟨rfl, hvalue⟩
    | cons e' events =>
      obtain ⟨-, hnone⟩ := htaken hrest.1 hfinal
      exact absurd rfl hnone

/-- From `s` to `s'` this happened, or nothing. -/
structure Records (s s' : Slot V) (event : Option (Event V)) : Prop where
  /-- It could happen. -/
  admits : ∀ e ∈ event, s.Admits e
  /-- It makes the one slot the other. -/
  eq : s' = event.elim s s.record

theorem Records.refl (s : Slot V) : s.Records s none := ⟨nofun, rfl⟩

theorem Records.of_admits {e : Event V} (h : s.Admits e) : s.Records (s.record e) (some e) := by
  refine ⟨fun e' he' => ?_, rfl⟩
  obtain rfl := Option.some.inj he'
  exact h

end Slot

end WireForm.Sync
