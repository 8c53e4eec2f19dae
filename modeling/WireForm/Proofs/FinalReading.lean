import WireForm.Proofs.Mapping
import WireForm.Proofs.Retrieval

/-!
# Reads of the final value

A consumer that wants the final value or nothing asks for it in one of three ways: at once or after
some time, leaving the value there or taking it. Each goes in three steps. The result is settled, by
cancelling it if it is not final; the value is read; and if there is none the state is looked at
once more, to say why.

So the answer is given after the result was changed. It is about the state before nonetheless. A
provided result is not touched by the first step, one that is not provided is cancelled after it,
and a provided result without a value is one from which a call has taken the final value.

Transforms come in only where there is a value. The result may have been taken through one chain and
be asked for through another, and a transform that crashes on a value is an answer of its own.

## Main definitions

* `Chain.through`, `Chain.isOwned` — what a chain makes of a value, and whether looking shows one
* `Chain.Explains` — an outcome that tells how the result was, and what is left of it
* `Session.TookFinal` — in a run, a call has taken the final value
* `Session.Hears` — a call that answers with a retrieval

## Main results

* `Chain.value_get`, `Chain.value_takeFinal` — retrievals through any transforms
* `Session.get_eq_none_iff_tookFinal` — why a provided result has no value
* `final_reads_settle_and_explain` — all of it, for runs from the start
-/

namespace WireForm.Sync

/-! ### Values and transforms -/

section Chains

variable {α β γ : Type} {c : Cell α}

/-- What the transforms make of a value, one after the other, unless one crashes. -/
def Chain.through {β : Type} : Chain α β → α → Outcome β
  | .direct, a => .ok a
  | .map base f, a => do f.apply (← base.through a)
  | .mapOwned base f, a => do f.apply (← base.through a)

/-- Whether any of the transforms is of values that are taken. -/
def Chain.isOwned {β : Type} : Chain α β → Bool
  | .direct => false
  | .map base _ => base.isOwned
  | .mapOwned _ _ => true

/-- What comes out of the transforms where this is the value, if there is one. -/
def Chain.shown (ch : Chain α β) : Option α → Outcome (Option β)
  | some a => (ch.through a).map some
  | none => .ok none

/-- One transform more is called on what comes out of those below it. -/
theorem Retrieval.value_transform {r : Retrieval α β} {ch : Chain α β} {a? : Option α}
    (h : r.value = ch.shown a?) (f : Transform β γ) :
    (r.transform f).value = (ch.map f).shown a? := by
  cases a? with
  | none =>
    rw [transform, h]
    rfl
  | some a =>
    have hvalue : r.value = (ch.through a).map some := h
    have hthrough : (ch.map f).shown (some a) = (ch.through a >>= f.apply).map some := rfl
    rw [transform, hvalue, hthrough]
    cases ch.through a <;> rfl

theorem Retrieval.settled_of_map {r : Retrieval α β} {value : Outcome β}
    (h : r.value = value.map some) (control : Control α) :
    r.settled control = value.map .ok := by
  rw [settled, h]
  cases value <;> rfl

namespace Chain

theorem value_get {β : Type} (ch : Chain α β) (h : ch.isOwned = false) :
    (ch.get c).value = ch.shown c.get := by
  induction ch with
  | direct => cases hvalue : c.get <;> simp [get, shown, through, hvalue, Except.map]
  | map base f ih => exact Retrieval.value_transform (ih h) f
  | mapOwned base f ih => cases h

theorem value_takeFinal {β : Type} (ch : Chain α β) :
    (ch.takeFinal c).value = ch.shown c.takeFinal.1 := by
  induction ch with
  | direct => cases hvalue : c.takeFinal.1 <;> simp [takeFinal, shown, through, hvalue, Except.map]
  | map base f ih => exact Retrieval.value_transform ih f
  | mapOwned base f ih => exact Retrieval.value_transform ih f

end Chain

end Chains

/-! ### Settling -/

section Settling

variable {α β : Type} {c : Cell α}

namespace Cell.Coherent

theorem cancel_of_provided (hc : c.Coherent) (h : c.state = .provided) : c.cancel.2 = c := by
  rw [hc.cancel_of_final (State.isFinal_iff.mpr (Or.inl h))]

theorem eq_cancelled (hc : c.Coherent) (h : c.state = .cancelled) : c = .ofSlot .cancelled := by
  obtain ⟨⟨isOpen, ⟨value, state⟩⟩, decided⟩ := c
  obtain rfl : state = .cancelled := h
  obtain rfl : value = none := hc.sound (Or.inr rfl)
  exact hc.eq_ofSlot

/-- Any other result is cancelled, whether it was before or not. -/
theorem cancel_of_ne_provided (hc : c.Coherent) (h : c.state ≠ .provided) :
    c.cancel.2 = .ofSlot .cancelled := by
  cases hfinal : c.state.isFinal with
  | true =>
    rw [hc.cancel_of_final hfinal]
    exact hc.eq_cancelled ((State.isFinal_iff.mp hfinal).resolve_left h)
  | false => rw [hc.cancel_of_pending hfinal]

theorem cancel_isFinal (hc : c.Coherent) : c.cancel.2.state.isFinal = true := by
  by_cases h : c.state = .provided
  · rw [hc.cancel_of_provided h, h]
    rfl
  · rw [hc.cancel_of_ne_provided h]
    rfl

/-- To wait and then cancel is to cancel, unless it is to wait for ever. -/
theorem cancelAfter_eq (hc : c.Coherent) {p : Patience}
    (hp : c.state.isFinal = true ∨ p = .bounded) :
    ∃ inTime, c.cancelAfter p = some (inTime, c.cancel.2) := by
  rcases hp with hfinal | rfl
  · rw [hc.cancelAfter_of_final hfinal, hc.cancel_of_final hfinal]
    exact ⟨true, rfl⟩
  · exact ⟨_, hc.cancelAfter_bounded⟩

end Cell.Coherent

namespace Chain

variable {ch : Chain α β} {r : Retrieval α β} {taken : Prop} {left : Cell α}

/-- The outcome `r` of settling the result `c` and reading its value tells how the result was:
provided with a value, which came out of the transforms or made one of them crash; provided and
`taken`; or not provided. A provided result then is `left`. -/
structure Explains (ch : Chain α β) (c : Cell α) (taken : Prop) (left : Cell α)
    (r : Retrieval α β) : Prop where
  /-- The result is final. -/
  isFinal : r.cell.state.isFinal = true
  /-- A value is what the transforms make of the one that was provided. -/
  value_iff : ∀ b, r.settled ch.control = .ok (.ok b) ↔
    c.state = .provided ∧ ∃ a, c.get = some a ∧ ch.through a = .ok b
  /-- A crash is one of the transforms. -/
  crash_iff : ∀ fault, r.settled ch.control = .error fault ↔
    c.state = .provided ∧ ∃ a, c.get = some a ∧ ch.through a = .error fault
  /-- Only of a provided result it is said that it was taken, and it was. -/
  taken_iff : r.settled ch.control = .ok (.error .taken) ↔ c.state = .provided ∧ taken
  /-- Of any other it is said that it was cancelled. -/
  cancelled_iff : r.settled ch.control = .ok (.error .cancelled) ↔ c.state ≠ .provided
  /-- And it was, together with any provisional value. -/
  cell_of_ne_provided : c.state ≠ .provided → r.cell = .ofSlot .cancelled
  /-- That is no change where it was cancelled before. -/
  cell_of_cancelled : c.state = .cancelled → r.cell = c
  /-- This is left of a provided result. -/
  cell_of_provided : c.state = .provided → r.cell = left

/-- The explanation of a missing value, in terms of the state before. -/
theorem settled_eq (hc : c.Coherent) (hvalue : r.value = ch.shown c.cancel.2.get)
    (hstate : r.cell.state = c.cancel.2.state) :
    r.settled ch.control =
      if c.state = .provided then
        match c.get with
        | some a => (ch.through a).map .ok
        | none => .ok (.error .taken)
      else .ok (.error .cancelled) := by
  rw [control_eq]
  by_cases hprovided : c.state = .provided
  · rw [hc.cancel_of_provided hprovided] at hvalue hstate
    rw [if_pos hprovided]
    cases hget : c.get with
    | none =>
      rw [hget] at hvalue
      rw [r.settled_of_none hvalue, hstate, hprovided]
      rfl
    | some a =>
      rw [hget] at hvalue
      exact r.settled_of_map hvalue _
  · rw [hc.cancel_of_ne_provided hprovided] at hvalue hstate
    rw [if_neg hprovided, r.settled_of_none hvalue, hstate]
    rfl

/-- Whatever reads the value of the settled result explains how that was. -/
theorem explains (hc : c.Coherent) (htaken : c.state = .provided → (c.get = none ↔ taken))
    (hvalue : r.value = ch.shown c.cancel.2.get) (hstate : r.cell.state = c.cancel.2.state)
    (hcell : c.state ≠ .provided → r.cell = .ofSlot .cancelled)
    (hleft : c.state = .provided → r.cell = left) : ch.Explains c taken left r := by
  have hsettled := settled_eq hc hvalue hstate
  have hfinal : r.cell.state.isFinal = true := by
    rw [hstate]
    exact hc.cancel_isFinal
  have hcancelled (h : c.state = .cancelled) : r.cell = c := by
    rw [hcell (by rw [h]; exact State.noConfusion), ← hc.eq_cancelled h]
  by_cases hprovided : c.state = .provided
  · rw [if_pos hprovided] at hsettled
    cases hget : c.get with
    | none =>
      have htook : taken := (htaken hprovided).mp hget
      rw [hget] at hsettled
      refine ⟨hfinal, fun b => ?_, fun fault => ?_, ?_, ?_, hcell, hcancelled, hleft⟩ <;>
        simp [hsettled, hprovided, hget, htook]
    | some a =>
      have hkept : ¬ taken := by
        rw [← htaken hprovided, hget]
        exact nofun
      rw [hget] at hsettled
      cases hthrough : ch.through a <;>
        refine ⟨hfinal, fun b => ?_, fun fault => ?_, ?_, ?_, hcell, hcancelled, hleft⟩ <;>
        simp [hsettled, hprovided, hget, hkept, hthrough, Except.map]
  · rw [if_neg hprovided] at hsettled
    refine ⟨hfinal, fun b => ?_, fun fault => ?_, ?_, ?_, hcell, hcancelled, hleft⟩ <;>
      simp [hsettled, hprovided]

theorem explains_get (hc : c.Coherent) (htaken : c.state = .provided → (c.get = none ↔ taken))
    (hch : ch.isOwned = false) : ch.Explains c taken c (ch.get c.cancel.2) :=
  explains hc htaken (ch.value_get hch) (congrArg Cell.state (ch.cell_get _))
    (fun h => (ch.cell_get _).trans (hc.cancel_of_ne_provided h))
    fun h => (ch.cell_get _).trans (hc.cancel_of_provided h)

theorem explains_takeFinal (hc : c.Coherent)
    (htaken : c.state = .provided → (c.get = none ↔ taken)) :
    ch.Explains c taken (.ofSlot ⟨none, .provided⟩) (ch.takeFinal c.cancel.2) := by
  have hsettled : c.cancel.2.Coherent := (Cell.evolves_cancel c hc).1
  have htake : c.cancel.2.takeFinal = c.cancel.2.take :=
    hsettled.takeFinal_of_final hc.cancel_isFinal
  have hvalue : (ch.takeFinal c.cancel.2).value = ch.shown c.cancel.2.get := by
    rw [value_takeFinal, htake]
    rfl
  have hcell : (ch.takeFinal c.cancel.2).cell = c.cancel.2.take.2 := by
    rw [cell_takeFinal, htake]
  have hstate : (ch.takeFinal c.cancel.2).cell.state = c.cancel.2.state := by
    rw [hcell]
    rfl
  refine explains hc htaken hvalue hstate (fun h => ?_) fun h => ?_
  · rw [hcell, hc.cancel_of_ne_provided h]
    rfl
  · rw [hcell, hc.cancel_of_provided h, hc.eq_ofSlot, ← h]
    rfl

end Chain

end Settling

/-! ### Runs -/

variable {V : Type}

namespace Session

/-- One of the calls has taken the value of this result, which was provided then. -/
def TookFinal (s : Session V) (actions : List (Action V)) (id : Nat) : Prop :=
  ∃ earlier a later, actions = earlier ++ a :: later ∧
    ((s.run earlier).2.store.cell id).state = .provided ∧
      (s.run earlier).2.event? id a = some .taken

section Taking

variable {s : Session V} {id : Nat} {actions : List (Action V)}

/-- A call that leaves a provided result without a value has taken the final one, or it was like
that before. -/
theorem taken_of_perform (hs : s.Sound) (ho : s.Owned) {a : Action V}
    (h : ((s.perform a).2.store.cell id).slot.value = ⟨none, .provided⟩) :
    (s.store.cell id).slot.value = ⟨none, .provided⟩ ∨
      (s.store.cell id).state = .provided ∧ s.event? id a = some .taken := by
  obtain ⟨-, hslot⟩ := records_perform hs ho a id
  rw [h] at hslot
  cases hevent : s.event? id a with
  | none =>
    rw [hevent] at hslot
    exact Or.inl hslot.symm
  | some e =>
    rw [hevent] at hslot
    cases e with
    | set v isFinal => cases hslot
    | cancelled => cases hslot
    | taken => exact Or.inr ⟨(congrArg Slot.state hslot).symm, rfl⟩

theorem tookFinal_of_run (hs : s.Sound) (ho : s.Owned)
    (h : ((s.run actions).2.store.cell id).slot.value = ⟨none, .provided⟩) :
    (s.store.cell id).slot.value = ⟨none, .provided⟩ ∨ s.TookFinal actions id := by
  induction actions generalizing s with
  | nil => exact Or.inl h
  | cons a actions ih =>
    rcases ih (hs.perform a) (ho.perform hs a) h with hslot | ⟨earlier, a', later, hsplit, htook⟩
    · refine (taken_of_perform hs ho hslot).imp_right fun ⟨hprovided, htaken⟩ => ?_
      exact ⟨[], a, actions, rfl, hprovided, htaken⟩
    · exact Or.inr ⟨a :: earlier, a', later, congrArg (a :: ·) hsplit, htook⟩

end Taking

/-- **A provided result has no value just when its final value was taken.** -/
theorem get_eq_none_iff_tookFinal {actions : List (Action V)} {id : Nat}
    (hstate : ((start.run actions).2.store.cell id).state = .provided) :
    ((start.run actions).2.store.cell id).get = none ↔ start.TookFinal actions id := by
  constructor
  · intro hvalue
    have hslot : ((start.run actions).2.store.cell id).slot.value = ⟨none, .provided⟩ :=
      congrArg₂ Slot.mk hvalue hstate
    refine (tookFinal_of_run sound_start owned_start hslot).resolve_left fun hfresh => ?_
    rw [Store.cell_of_le (Nat.zero_le id)] at hfresh
    cases hfresh
  · rintro ⟨earlier, a, later, rfl, hprovided, htaken⟩
    have hs := sound_start.run earlier
    have ho := owned_start.run sound_start earlier
    rw [run_append, run_cons]
    exact (provided_run_of_taken hs ho htaken hprovided later).2

/-- The answer `x.1` tells the outcome of the retrieval, and of all results only the one of this
number has changed, to what the retrieval left of it. -/
structure Hears (s : Session V) (h : Handle V) (x : Reply V × Session V) (r : Retrieval V V) :
    Prop where
  /-- The answer is the outcome. -/
  reply_eq : x.1 =
    match r.settled h.chain.control with
    | .ok answer => settledReply answer
    | .error _ => .crashed
  /-- The result is what was left of it. -/
  cell_eq : x.2.store.cell h.cell = r.cell
  /-- The others are as they were. -/
  cell_of_ne : ∀ j, j ≠ h.cell → x.2.store.cell j = s.store.cell j

theorem hears_afterSettling {s : Session V} {h : Handle V} (hid : h.cell < s.store.cells.length)
    (r : Retrieval V V) : s.Hears h (s.afterSettling h.cell (some r)) r where
  reply_eq := by
    rw [Chain.control_eq]
    show (s.retrieve h.cell r (r.settled .direct) settledReply).1 = _
    cases r.settled .direct <;> rfl
  cell_eq := Store.cell_setCell_self hid
  cell_of_ne _ hj := Store.cell_setCell_of_ne hj

end Session

/-- **A call that settles the result and asks for its final value always settles it and reports the
right outcome.** After any run, and through any transforms, it leaves a final result. It answers
with what the transforms make of the value just when one was provided and is still there, that it
was taken just when it was provided and a call of the run has taken the final value, and otherwise
that it was cancelled, and then no value is left. A provided value stays where it was looked at and
is gone where it was taken, and nothing else happens to a result that was final. Looking is through
transforms that show values, and a call that waits for ever for a result that is not final is no
such call. What a consumer hears is this outcome. -/
theorem final_reads_settle_and_explain {V β : Type} (before : List (Action V)) (id : Nat)
    (ch : Chain V β) :
    let s := (Session.start.run before).2
    let c := s.store.cell id
    let taken := Session.start.TookFinal before id
    (ch.isOwned = false → ch.Explains c taken c (ch.getOrCancel c)) ∧
    (∀ p, c.state.isFinal = true ∨ p = .bounded →
      (ch.isOwned = false →
        ∃ r, ch.getOrCancelAfter p c = some r ∧ ch.Explains c taken c r) ∧
      ∃ r, ch.takeOrCancelAfter p c = some r ∧
        ch.Explains c taken (.ofSlot ⟨none, .provided⟩) r) ∧
    ∀ name (h : Handle V), s.store.handles.lookup name = some h →
      let c := s.store.cell h.cell
      s.Hears h (s.perform (.call name .getOrCancel)) (h.chain.getOrCancel c) ∧
      ∀ p r,
        (h.chain.getOrCancelAfter p c = some r →
          s.Hears h (s.perform (.call name (.getOrCancelAfter p))) r) ∧
        (h.chain.takeOrCancelAfter p c = some r →
          s.Hears h (s.perform (.call name (.takeOrCancelAfter p))) r) := by
  intro s c taken
  have hs : s.Sound := Session.sound_start.run before
  have ho : s.Owned := Session.owned_start.run Session.sound_start before
  have hc : c.Coherent := hs.coherent id
  have htaken : c.state = .provided → (c.get = none ↔ taken) := Session.get_eq_none_iff_tookFinal
  refine ⟨fun hch => ?_, fun p hp => ⟨fun hch => ?_, ?_⟩, fun name h hname => ?_⟩
  · rw [Chain.getOrCancel_eq]
    exact Chain.explains_get hc htaken hch
  · obtain ⟨inTime, hcancel⟩ := hc.cancelAfter_eq hp
    rw [Chain.getOrCancelAfter_eq, hcancel]
    exact ⟨_, rfl, Chain.explains_get hc htaken hch⟩
  · obtain ⟨inTime, hcancel⟩ := hc.cancelAfter_eq hp
    rw [Chain.takeOrCancelAfter_eq, hcancel]
    exact ⟨_, rfl, Chain.explains_takeFinal hc htaken⟩
  · have hid := ho.consumers_lt h.cell (Store.hasConsumers_of_lookup hname (Or.inl rfl))
    have hcall (call : Call) : s.perform (.call name call) = s.call h call := by
      rw [Session.perform, Session.withConsumer, hname]
    intro c
    refine ⟨?_, fun p r => ⟨fun hr => ?_, fun hr => ?_⟩⟩
    · rw [hcall, Session.call_getOrCancel, ← Chain.getOrCancel_eq]
      exact Session.hears_afterSettling hid _
    · rw [hcall, Session.call_getOrCancelAfter, ← Chain.getOrCancelAfter_eq, hr]
      exact Session.hears_afterSettling hid r
    · rw [hcall, Session.call_takeOrCancelAfter, ← Chain.takeOrCancelAfter_eq, hr]
      exact Session.hears_afterSettling hid r

/-- A provisional value is taken and replaced by a final one. That is looked at and taken through a
transform, and when it was taken without one, the same transform is told so. -/
theorem final_reads_settle_and_explain_at_replaced :
    let before : List (Action Nat) := [.provider "p", .consumer "p" "c", .update "p" 1,
      .call "c" .tryTake, .provide "p" 2]
    let later : List (Action Nat) := before ++ [.call "c" .tryTakeFinal]
    let ch : Chain Nat Nat := .map .direct (.pure 0 (· + 1))
    let s := (Session.start.run before).2
    let c := s.store.cell 0
    let c' := (Session.start.run later).2.store.cell 0
    ch.isOwned = false ∧ c.state = .provided ∧ c'.state.isFinal = true ∧
      (ch.getOrCancel c).settled ch.control = .ok (.ok 3) ∧ (ch.getOrCancel c).cell = c ∧
      (∃ r, ch.takeOrCancelAfter .bounded c = some r ∧ r.settled ch.control = .ok (.ok 3) ∧
        r.cell = .ofSlot ⟨none, .provided⟩) ∧
      s.store.handles.lookup "c" = some ⟨0, .direct⟩ ∧
      (s.perform (.call "c" .getOrCancel)).1 = .value (some 2) ∧
      Session.start.TookFinal later 0 ∧
      ∃ r, ch.getOrCancelAfter .unbounded c' = some r ∧
        r.settled ch.control = .ok (.error .taken) := by
  intro before later ch s c c'
  have hlooks : ch.isOwned = false := rfl
  have hvalue : c.state = .provided ∧ ∃ n, c.get = some n ∧ ch.through n = .ok 3 :=
    ⟨rfl, 2, rfl, rfl⟩
  obtain ⟨hget, htimed, hheard⟩ := final_reads_settle_and_explain before 0 ch
  obtain ⟨r, hr, htake⟩ := (htimed .bounded (Or.inr rfl)).2
  have hname : s.store.handles.lookup "c" = some ⟨0, .direct⟩ := rfl
  obtain ⟨-, hlater, -⟩ := final_reads_settle_and_explain later 0 ch
  have htook : Session.start.TookFinal later 0 :=
    ⟨before, .call "c" .tryTakeFinal, [], rfl, rfl, rfl⟩
  obtain ⟨r', hr', hexplains⟩ := (hlater .unbounded (Or.inl rfl)).1 hlooks
  exact ⟨hlooks, rfl, rfl, ((hget hlooks).value_iff 3).mpr hvalue,
    (hget hlooks).cell_of_provided rfl,
    ⟨r, hr, (htake.value_iff 3).mpr hvalue, htake.cell_of_provided rfl⟩, hname,
    (hheard "c" _ hname).1.reply_eq, htook, r', hr', hexplains.taken_iff.mpr ⟨rfl, htook⟩⟩

end WireForm.Sync
