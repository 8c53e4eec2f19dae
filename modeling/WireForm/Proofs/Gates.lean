import WireForm.Proofs.Ownership

/-!
# The gates of a result

A result is guarded by two gates: one opens when the result is final, the other as soon as anything
is decided. The state, the value and the gates are changed by calls of providers and consumers in
many orders, some of which find the result final and leave it alone, and still the three never
disagree: what the gates say can be read off the state.

A provider that goes away settles its result, if nothing else has, so that both gates are open from
then on and nobody waits in vain.

## Main definitions

* `Session.Released` — both gates of a result are open, and no call waits for it for ever

## Main results

* `Session.call_ne_blocked` — a call about a final result does not wait for ever
* `gates_agree` — gates, states and values agree after every run, and results without a provider are
  released
-/

namespace WireForm.Sync

variable {V : Type}

theorem Gate.wait_of_open {α : Type} {g : Gate α} (h : g.isOpen = true) (p : Patience) :
    g.wait p = some true := by
  simp [wait, h]

namespace Session

variable {s : Session V} {id : Nat}

theorem retrieve_ne_blocked {α β : Type} (r : Retrieval V β) (outcome : Outcome α)
    {answer : α → Reply V} (h : ∀ a, answer a ≠ .blocked) :
    (s.retrieve id r outcome answer).1 ≠ .blocked := by
  cases outcome with
  | ok a => exact h a
  | error fault => rintro ⟨⟩

theorem settledReply_ne_blocked (a : Except Unavailable V) : settledReply a ≠ .blocked := by
  cases a <;> rintro ⟨⟩

theorem value_ne_blocked (a : Option V) : Reply.value a ≠ .blocked := by
  rintro ⟨⟩

/-- A call about a final result does not wait for ever: there is nothing to wait for. -/
theorem call_ne_blocked {h : Handle V} (hs : (s.store.cell h.cell).Coherent)
    (hfinal : (s.store.cell h.cell).state.isFinal = true) (call : Call) :
    (s.call h call).1 ≠ .blocked := by
  rw [call_eq]
  have hslot (p : Patience) : (s.store.cell h.cell).waitFinal p = some true :=
    Gate.wait_of_open (hs.isOpen_of_final hfinal) p
  have hdecided (p : Patience) : (s.store.cell h.cell).wait p = some true :=
    Gate.wait_of_open
      (hs.decided_isOpen.trans (bne_iff_ne.mpr (State.ne_undecided_of_final hfinal))) p
  have hcancel (p : Patience) := hs.cancelAfter_of_final hfinal p
  cases call with
  | wait =>
    simp only [callThrough, Control.direct, hdecided]
    rintro ⟨⟩
  | waitFinal =>
    simp only [callThrough, Control.direct, hslot]
    rintro ⟨⟩
  | waitFor p =>
    simp only [callThrough, Control.direct, hdecided]
    rintro ⟨⟩
  | waitFinalFor p =>
    simp only [callThrough, Control.direct, hslot]
    rintro ⟨⟩
  | cancelAfter p =>
    simp only [callThrough, Control.direct, hcancel]
    rintro ⟨⟩
  | cancel => rintro ⟨⟩
  | tryGet => exact retrieve_ne_blocked _ _ value_ne_blocked
  | tryTake => exact retrieve_ne_blocked _ _ value_ne_blocked
  | tryTakeFinal => exact retrieve_ne_blocked _ _ value_ne_blocked
  | getOrCancel => exact retrieve_ne_blocked _ _ settledReply_ne_blocked
  | getOrCancelAfter p =>
    simp only [callThrough, Chain.getOrCancelAfter_eq, hcancel]
    exact retrieve_ne_blocked _ _ settledReply_ne_blocked
  | takeOrCancelAfter p =>
    simp only [callThrough, Chain.takeOrCancelAfter_eq, hcancel]
    exact retrieve_ne_blocked _ _ settledReply_ne_blocked

/-- Both gates of a result are open, and whatever is called through a handle on it, provisional or
final values and timeouts of any length included, does not wait for ever. -/
structure Released (s : Session V) (id : Nat) : Prop where
  /-- The result is final. -/
  slot_isOpen : (s.store.cell id).slot.isOpen = true
  /-- Something was decided. -/
  decided_isOpen : (s.store.cell id).decided.isOpen = true
  /-- No call waits for ever. -/
  not_blocked : ∀ (h : Handle V) (call : Call), h.cell = id → (s.call h call).1 ≠ .blocked

theorem released_of_final (hs : s.Sound) (hfinal : (s.store.cell id).state.isFinal = true) :
    s.Released id where
  slot_isOpen := (hs.coherent id).isOpen_of_final hfinal
  decided_isOpen := (hs.coherent id).decided_isOpen.trans
    (bne_iff_ne.mpr (State.ne_undecided_of_final hfinal))
  not_blocked h call hcell := by
    subst hcell
    exact call_ne_blocked (hs.coherent h.cell) hfinal call

theorem isFinal_perform_dropProvider (hs : s.Sound) (ho : s.Owned) {name : String}
    (hname : s.providers.lookup name = some id) :
    ((s.perform (.dropProvider name)).2.store.cell id).state.isFinal = true := by
  have hperform : (s.perform (.dropProvider name)).2 = s.dropProvider name := by
    rw [perform, withProvider, hname]
  rw [hperform, dropProvider, hname]
  exact Queue.isFinal_dropProvider hs.coherent (ho.providers_lt name id hname)

end Session

/-- **The two gates of a result, its state and its value never disagree**, whatever has been called:
the first gate is open just when the state is final, the second just when anything was decided, and
a value is there only where one was provided. From the moment that its provider goes away a result
has both gates open, and no call waits for it for ever. -/
theorem gates_agree {V : Type} :
    (∀ (actions : List (Action V)) (id : Nat),
      let c := (Session.start.run actions).2.store.cell id
      (c.slot.isOpen = true ↔ c.state = .provided ∨ c.state = .cancelled) ∧
      (c.decided.isOpen = true ↔ c.state ≠ .undecided) ∧
      (c.state = .undecided ∨ c.state = .cancelled → c.slot.value.value = none)) ∧
    (∀ (before after : List (Action V)) (name : String) (id : Nat),
      (Session.start.run before).2.providers.lookup name = some id →
      (Session.start.run (before ++ .dropProvider name :: after)).2.Released id) ∧
    (∀ (actions : List (Action V)) (id : Nat),
      let s := (Session.start.run actions).2
      id < s.store.cells.length → ¬ s.HasProvider id → s.Released id) := by
  refine ⟨fun actions id => ?_, fun before after name id hname => ?_,
    fun actions id hid hgone => ?_⟩
  · obtain ⟨hslot, hdecided, hsound⟩ := (Session.sound_start.run actions).coherent id
    refine ⟨?_, ?_, hsound⟩
    · rw [hslot, State.isFinal_iff]
    · rw [hdecided, bne_iff_ne]
  · have hs := Session.sound_start.run before
    have ho := Session.owned_start.run Session.sound_start before
    have hdrop := hs.perform (.dropProvider name)
    have hfinal := Session.isFinal_perform_dropProvider hs ho hname
    rw [Session.run_append, Session.run_cons]
    refine Session.released_of_final (hdrop.run after) ?_
    exact Queue.isFinal_of_evolves (Session.evolves_run hdrop after) hdrop.coherent hfinal
  · have ho := Session.owned_start.run Session.sound_start actions
    exact Session.released_of_final (Session.sound_start.run actions) (ho.final id hid hgone)

/-- A provider that has set a provisional value goes away while two handles are left, one of them
behind a transform that is called and crashes; and a queue goes away while a consumer waits. -/
theorem gates_agree_at_dropped :
    let before : List (Action Nat) := [.provider "p", .consumer "p" "c", .clone "c" "d",
      .map false ⟨0, fun _ => crash⟩ "d" "e", .update "p" 1, .call "e" .tryGet]
    let waited : List (Action Nat) := [.queue "q", .pop "q" "a", .dropQueue "q"]
    let s := (Session.start.run waited).2
    (Session.start.run before).2.providers.lookup "p" = some 0 ∧
      (Session.start.run (before ++ [.dropProvider "p", .call "c" .tryTake])).2.Released 0 ∧
      0 < s.store.cells.length ∧ ¬ s.HasProvider 0 ∧ s.Released 0 := by
  intro before waited s
  obtain ⟨-, hdropped, hgone⟩ := gates_agree (V := Nat)
  have hlength : 0 < s.store.cells.length := Nat.one_pos
  have hnone : ¬ s.HasProvider 0 := by
    rintro (⟨name, hname⟩ | ⟨queue, hqueue⟩)
    · cases hname
    · cases hqueue
  exact ⟨rfl, hdropped _ _ "p" 0 rfl, hlength, hnone, hgone waited 0 hlength hnone⟩

end WireForm.Sync
