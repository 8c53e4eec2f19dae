import WireForm.Proofs.Answers

/-!
# Consumers behind pure transforms

A transform that never crashes is no more than a function with a label. A chain of such functions on
top of a consumer makes another consumer, through which the same result is seen: calls that touch no
value are the same, and a value that is retrieved is the value with the functions applied to it,
each once and in order. Where no value is retrieved no function is called.

Only looking can tell more. As soon as one link of the chain is for values that are taken, looking
through the chain shows nothing at all, and nothing is called.

## Main definitions

* `Mapping`, `Mapping.function`, `Mapping.labels`, `Mapping.isOwned` — a chain of pure transforms
* `Mapping.onto`, `Mapping.on` — the chain put on another, and on a handle
* `Mapping.view`, `Mapping.seen` — a retrieval, and what a call comes to, as seen through it
* `Mapping.answer` — the answer to a call, as heard through it

## Main results

* `Mapping.take_onto`, `Mapping.takeFinal_onto`, `Mapping.get_onto`, `Mapping.get_onto_of_owned` —
  retrievals through a mapping
* `Session.call_on_of_control`, `Session.call_on` — calls, save those that look in vain
* `Session.answer_call_on` — the answer to any call, in a session that is sound
* `Session.store_call_on` — what becomes of the results, whichever the call
-/

namespace WireForm.Sync

/-- The transform that calls this function, which does not crash. -/
def Transform.pure {β γ : Type} (label : Nat) (f : β → γ) : Transform β γ :=
  ⟨label, fun b => .ok (f b)⟩

/-- Put a transform on a chain, of values that are taken or also of such as are looked at. -/
def Chain.link {α β γ : Type} (ch : Chain α β) (owned : Bool) (f : Transform β γ) : Chain α γ :=
  if owned then ch.mapOwned f else ch.map f

/-- Whether a value was retrieved, and no transform crashed on it. -/
def Retrieval.hasValue {α β : Type} (r : Retrieval α β) : Bool :=
  match r.value with
  | .ok (some _) => true
  | _ => false

/-- A chain of pure transforms, to be put on something that gives values of type `β`. -/
inductive Mapping (β : Type) : Type → Type 1 where
  /-- No transform. -/
  | identity : Mapping β β
  /-- One more transform, of values that are taken or also of such as are looked at. -/
  | andThen {γ δ : Type} (m : Mapping β γ) (owned : Bool) (label : Nat) (f : γ → δ) : Mapping β δ

namespace Mapping

variable {α β γ δ : Type}

/-- The transforms as one function. -/
def function {γ : Type} : Mapping β γ → β → γ
  | .identity => id
  | .andThen m _ _ f => f ∘ m.function

/-- The labels of the transforms, in order. -/
def labels {γ : Type} : Mapping β γ → List Nat
  | .identity => []
  | .andThen m _ label _ => m.labels ++ [label]

/-- Whether any of the transforms is of values that are taken. -/
def isOwned {γ : Type} : Mapping β γ → Bool
  | .identity => false
  | .andThen m owned _ _ => m.isOwned || owned

/-- The transforms put on a chain. -/
def onto {γ : Type} (ch : Chain α β) : Mapping β γ → Chain α γ
  | .identity => ch
  | .andThen m owned label f => (m.onto ch).link owned (.pure label f)

/-- The transforms that are called: each once if there is a value, and else none. -/
def called (m : Mapping β γ) (hasValue : Bool) : List Nat := if hasValue then m.labels else []

/-- A retrieval, as seen through the transforms. -/
def view (m : Mapping β γ) (r : Retrieval α β) : Retrieval α γ where
  value := r.value.map (Option.map m.function)
  calls := r.calls ++ m.called r.hasValue
  cell := r.cell

/-! ### Retrieving through a mapping -/

theorem view_identity (r : Retrieval α β) : identity.view r = r := by
  obtain ⟨_ | _ | _, calls, cell⟩ := r <;>
    simp [view, called, labels, function, Except.map]

/-- One transform more is called on what comes out of those below it. -/
theorem transform_view (m : Mapping β γ) (owned : Bool) (label : Nat) (f : γ → δ)
    (r : Retrieval α β) :
    (m.view r).transform (.pure label f) = (m.andThen owned label f).view r := by
  obtain ⟨_ | _ | _, calls, cell⟩ := r <;>
    simp [view, called, labels, function, Retrieval.transform, Retrieval.hasValue, Transform.pure,
      Except.map]

variable (ch : Chain α β) (m : Mapping β γ) (p : Patience) (c : Cell α)

theorem control_onto : (m.onto ch).control = ch.control := by
  rw [Chain.control_eq, Chain.control_eq]

theorem take_onto : (m.onto ch).take c = m.view (ch.take c) := by
  induction m with
  | identity => exact (view_identity _).symm
  | andThen m owned label f ih =>
    rw [← transform_view, ← ih]
    cases owned <;> rfl

theorem takeFinal_onto : (m.onto ch).takeFinal c = m.view (ch.takeFinal c) := by
  induction m with
  | identity => exact (view_identity _).symm
  | andThen m owned label f ih =>
    rw [← transform_view, ← ih]
    cases owned <;> rfl

theorem get_onto (hm : m.isOwned = false) : (m.onto ch).get c = m.view (ch.get c) := by
  induction m with
  | identity => exact (view_identity _).symm
  | andThen m owned label f ih =>
    obtain ⟨hbase, rfl⟩ := Bool.or_eq_false_iff.mp hm
    rw [← transform_view, ← ih hbase]
    rfl

/-- Behind a transform of values that are taken nothing is to be seen, however many transforms of
the other kind come after it. -/
theorem get_onto_of_owned (hm : m.isOwned = true) : (m.onto ch).get c = ⟨.ok none, [], c⟩ := by
  induction m with
  | identity => cases hm
  | andThen m owned label f ih =>
    cases owned with
    | true => rfl
    | false =>
      have hbase := ih ((Bool.or_false _).symm.trans hm)
      show ((m.onto ch).get c).transform (.pure label f) = _
      rw [hbase]
      rfl

theorem getOrCancel_onto (hm : m.isOwned = false) :
    (m.onto ch).getOrCancel c = m.view (ch.getOrCancel c) := by
  rw [Chain.getOrCancel_eq, Chain.getOrCancel_eq, get_onto ch m _ hm]

theorem getOrCancelAfter_onto (hm : m.isOwned = false) :
    (m.onto ch).getOrCancelAfter p c = (ch.getOrCancelAfter p c).map m.view := by
  rw [Chain.getOrCancelAfter_eq, Chain.getOrCancelAfter_eq, Option.map_map]
  cases c.cancelAfter p with
  | none => rfl
  | some x => exact congrArg some (get_onto ch m x.2 hm)

theorem takeOrCancelAfter_onto :
    (m.onto ch).takeOrCancelAfter p c = (ch.takeOrCancelAfter p c).map m.view := by
  rw [Chain.takeOrCancelAfter_eq, Chain.takeOrCancelAfter_eq, Option.map_map]
  cases c.cancelAfter p with
  | none => rfl
  | some x => exact congrArg some (takeFinal_onto ch m x.2)

end Mapping

/-! ### What is heard through a mapping -/

/-- Whether a call looks at the value and leaves it where it is. -/
def Call.looks : Call → Bool
  | .tryGet | .getOrCancel | .getOrCancelAfter _ => true
  | _ => false

variable {V : Type}

/-- An answer with this function applied to the value in it, if there is one. -/
def Reply.map (f : V → V) : Reply V → Reply V
  | .value v => .value (v.map f)
  | reply => reply

/-- Whether an answer brings a value. -/
def Reply.hasValue : Reply V → Bool
  | .value (some _) => true
  | _ => false

/-- The answer to a call that looks at a value which is not shown to it. -/
def Reply.hidden (call : Call) : Reply V → Reply V
  | .value _ | .crashed => if call = .tryGet then .value none else .unavailable .taken
  | reply => reply

namespace Mapping

/-- The transforms put on a consumer. -/
def on (m : Mapping V V) (h : Handle V) : Handle V := { h with chain := m.onto h.chain }

/-- What a call comes to, as seen through the transforms. -/
def seen (m : Mapping V V) (x : Reply V × Session V) : Reply V × Session V :=
  (x.1.map m.function, { x.2 with calls := x.2.calls ++ m.called x.1.hasValue })

/-- The answer to a call, as heard through the transforms. -/
def answer (m : Mapping V V) (call : Call) (reply : Reply V) : Reply V :=
  if m.isOwned && call.looks then reply.hidden call else reply.map m.function

variable {s : Session V} {id : Nat} {r : Retrieval V V} (m : Mapping V V)

/-- Where no value comes the transforms have nothing to do. -/
theorem seen_of_not_hasValue {x : Reply V × Session V} (hmap : x.1.map m.function = x.1)
    (hvalue : x.1.hasValue = false) : m.seen x = x := by
  rw [seen, hmap, hvalue]
  exact Prod.ext rfl (congrArg (Session.mk _ _ _ _) (List.append_nil _))

theorem retrieve_view {α : Type} {outcome outcome' : Outcome α} {answer : α → Reply V}
    (hreply : (s.retrieve id (m.view r) outcome' answer).1 =
      (s.retrieve id r outcome answer).1.map m.function)
    (hvalue : (s.retrieve id r outcome answer).1.hasValue = r.hasValue) :
    s.retrieve id (m.view r) outcome' answer = m.seen (s.retrieve id r outcome answer) := by
  rw [seen, hvalue]
  exact Prod.ext hreply (congrArg (Session.mk _ _ _ _) (List.append_assoc _ _ _).symm)

theorem retrieve_view_value :
    s.retrieve id (m.view r) (m.view r).value .value =
      m.seen (s.retrieve id r r.value .value) := by
  obtain ⟨_ | _ | _, calls, cell⟩ := r <;> exact m.retrieve_view rfl rfl

theorem retrieve_view_settled :
    s.retrieve id (m.view r) ((m.view r).settled .direct) Session.settledReply =
      m.seen (s.retrieve id r (r.settled .direct) Session.settledReply) := by
  obtain ⟨fault | _ | b, calls, cell⟩ := r
  · exact m.retrieve_view rfl rfl
  · refine m.retrieve_view ?_ ?_
    · rw [Retrieval.settled_of_none _ rfl, Retrieval.settled_of_none _ rfl]
      rfl
    · rw [Retrieval.settled_of_none _ rfl]
      rfl
  · exact m.retrieve_view rfl rfl

end Mapping

/-! ### Calls through a mapping -/

namespace Session

variable (s : Session V) (h : Handle V) (m : Mapping V V)

/-- A call that touches no value is the same through every chain. -/
theorem call_on_of_control {call : Call} (htakes : call.takes = false)
    (hlooks : call.looks = false) : s.call (m.on h) call = s.call h call := by
  rw [call_eq, call_eq]
  cases call with
  | wait | waitFinal | waitFor p | waitFinalFor p | cancelAfter p | cancel => rfl
  | tryGet | getOrCancel | getOrCancelAfter p => cases hlooks
  | tryTake | tryTakeFinal | takeOrCancelAfter p => cases htakes

/-- Such a call brings no value. -/
theorem seen_call_of_control {call : Call} (htakes : call.takes = false)
    (hlooks : call.looks = false) : m.seen (s.call h call) = s.call h call := by
  rw [call_eq]
  cases call with
  | wait | waitFinal | waitFor p | waitFinalFor p | cancelAfter p =>
    simp only [callThrough]
    split <;> exact m.seen_of_not_hasValue rfl rfl
  | cancel => exact m.seen_of_not_hasValue rfl rfl
  | tryGet | getOrCancel | getOrCancelAfter p => cases hlooks
  | tryTake | tryTakeFinal | takeOrCancelAfter p => cases htakes

/-- A call that settles the result and then retrieves the value, unless it waits for ever. -/
theorem settled_view (r : Option (Retrieval V V)) :
    s.afterSettling h.cell (r.map m.view) = m.seen (s.afterSettling h.cell r) := by
  cases r with
  | none => exact (m.seen_of_not_hasValue rfl rfl).symm
  | some r => exact m.retrieve_view_settled

/-- **A call through a mapping is the call itself**, seen through the transforms, unless it looks at
the value and one of the transforms is of values that are taken. -/
theorem call_on (call : Call) (hm : call.looks = true → m.isOwned = false) :
    s.call (m.on h) call = m.seen (s.call h call) := by
  cases call with
  | wait | waitFinal | waitFor p | waitFinalFor p | cancelAfter p | cancel =>
    rw [s.call_on_of_control h m rfl rfl, s.seen_call_of_control h m rfl rfl]
  | tryGet =>
    rw [call_eq, call_eq]
    refine Eq.trans ?_ m.retrieve_view_value
    rw [← Mapping.get_onto _ _ _ (hm rfl)]
    rfl
  | tryTake =>
    rw [call_eq, call_eq]
    refine Eq.trans ?_ m.retrieve_view_value
    rw [← Mapping.take_onto]
    rfl
  | tryTakeFinal =>
    rw [call_eq, call_eq]
    refine Eq.trans ?_ m.retrieve_view_value
    rw [← Mapping.takeFinal_onto]
    rfl
  | getOrCancel =>
    rw [call_eq, call_eq]
    refine Eq.trans ?_ (s.settled_view h m (some _))
    rw [Option.map_some, ← Mapping.getOrCancel_onto _ _ _ (hm rfl)]
    rfl
  | getOrCancelAfter p =>
    rw [call_eq, call_eq]
    refine Eq.trans ?_ (s.settled_view h m _)
    rw [← Mapping.getOrCancelAfter_onto _ _ _ _ (hm rfl)]
    rfl
  | takeOrCancelAfter p =>
    rw [call_eq, call_eq]
    refine Eq.trans ?_ (s.settled_view h m _)
    rw [← Mapping.takeOrCancelAfter_onto]
    rfl

/-! ### Looking in vain -/

theorem call_tryGet : s.call h .tryGet =
    s.retrieve h.cell (h.chain.get (s.store.cell h.cell)) (h.chain.get (s.store.cell h.cell)).value
      .value := by
  rw [call_eq]
  rfl

theorem call_getOrCancel : s.call h .getOrCancel =
    s.afterSettling h.cell (some (h.chain.get (s.store.cell h.cell).cancel.2)) := by
  rw [call_eq, ← Chain.getOrCancel_eq]
  rfl

theorem call_getOrCancelAfter (p : Patience) : s.call h (.getOrCancelAfter p) =
    s.afterSettling h.cell
      (((s.store.cell h.cell).cancelAfter p).map fun x => h.chain.get x.2) := by
  rw [call_eq, ← Chain.getOrCancelAfter_eq]
  rfl

variable {s h m}

/-- Looking through a transform of values that are taken shows none and changes nothing. -/
theorem call_on_tryGet_of_owned (hm : m.isOwned = true) :
    s.call (m.on h) .tryGet = (.value none, s) := by
  rw [call_tryGet]
  show s.retrieve h.cell ((m.onto h.chain).get _) ((m.onto h.chain).get _).value .value = _
  rw [Mapping.get_onto_of_owned _ _ _ hm]
  refine Prod.ext rfl ?_
  show { s.setCell h.cell (s.store.cell h.cell) with calls := s.calls ++ [] } = s
  rw [setCell, Store.setCell_cell, List.append_nil]

/-- What is heard when a value is looked at in vain, once the result is final. -/
theorem reply_settled_hidden {id : Nat} {c : Cell V} (hc : c.Coherent) (ch : Chain V V)
    {call : Call} (hcall : call ≠ .tryGet) :
    let r : Retrieval V V := ⟨.ok none, [], c⟩
    (s.retrieve id r (r.settled .direct) settledReply).1 =
      (s.retrieve id (ch.get c) ((ch.get c).settled .direct) settledReply).1.hidden call := by
  intro r
  by_cases hnone : (ch.get c).value = .ok none
  · rw [r.settled_of_none rfl, Retrieval.settled_of_none _ hnone, ch.cell_get]
    rfl
  · have hlive : c.state ≠ .cancelled := fun hcancelled =>
      hnone (ch.value_get_of_none (hc.sound (Or.inr hcancelled)))
    have htaken : (s.retrieve id r (r.settled .direct) settledReply).1 = .unavailable .taken := by
      rw [r.settled_of_none rfl, if_neg hlive]
      rfl
    rw [htaken, Retrieval.settled]
    rcases hvalue : (ch.get c).value with fault | _ | b
    · exact (if_neg hcall).symm
    · exact absurd hvalue hnone
    · exact (if_neg hcall).symm

/-- **The answer to a call through a mapping** is the answer to the call itself, as it is heard
through the transforms. -/
theorem answer_call_on (hc : (s.store.cell h.cell).Coherent) (call : Call) :
    (s.call (m.on h) call).1 = m.answer call (s.call h call).1 := by
  by_cases hin_vain : call.looks = true ∧ m.isOwned = true
  · obtain ⟨hlooks, hm⟩ := hin_vain
    have hanswer : m.answer call (s.call h call).1 = (s.call h call).1.hidden call := by
      rw [Mapping.answer, hlooks, hm]
      rfl
    have hhidden (c : Cell V) : (m.on h).chain.get c = ⟨.ok none, [], c⟩ :=
      Mapping.get_onto_of_owned _ _ _ hm
    rw [hanswer]
    cases call with
    | tryGet =>
      rw [call_on_tryGet_of_owned hm, call_tryGet]
      rcases hvalue : (h.chain.get (s.store.cell h.cell)).value with fault | b
      · rfl
      · rfl
    | getOrCancel =>
      rw [call_getOrCancel, call_getOrCancel, hhidden]
      exact reply_settled_hidden (Cell.evolves_cancel _ hc).1 h.chain nofun
    | getOrCancelAfter p =>
      rw [call_getOrCancelAfter, call_getOrCancelAfter]
      show (s.afterSettling h.cell (((s.store.cell h.cell).cancelAfter p).map _)).1 = _
      cases hcancel : (s.store.cell h.cell).cancelAfter p with
      | none => rfl
      | some x =>
        rw [Option.map_some, Option.map_some, hhidden]
        exact reply_settled_hidden (Cell.evolves_cancelAfter _ hcancel hc).1 h.chain nofun
    | wait | waitFinal | waitFor p | waitFinalFor p | cancelAfter p | cancel | tryTake
    | tryTakeFinal | takeOrCancelAfter p => cases hlooks
  · have hshown : (m.isOwned && call.looks) = false := by
      rw [Bool.and_comm]
      exact Bool.eq_false_iff.mpr fun h => hin_vain (Bool.and_eq_true_iff.mp h)
    have hm : call.looks = true → m.isOwned = false := fun hlooks => by
      rwa [hlooks, Bool.and_true] at hshown
    rw [s.call_on h m call hm, Mapping.answer, hshown]
    rfl

/-! ### What becomes of the results -/

/-- The session without the account of the transforms that were called. -/
def uncounted (s : Session V) : Session V := { s with calls := [] }

theorem uncounted_retrieve {id : Nat} {α β γ δ : Type} {r : Retrieval V α} {r' : Retrieval V β}
    (hcell : r'.cell = r.cell) (outcome : Outcome γ) (outcome' : Outcome δ) (answer : γ → Reply V)
    (answer' : δ → Reply V) :
    (s.retrieve id r' outcome' answer').2.uncounted =
      (s.retrieve id r outcome answer).2.uncounted := by
  simp only [uncounted, retrieve, hcell]

theorem uncounted_afterSettling {id : Nat} {retrieve retrieve' : Cell V → Retrieval V V}
    (hcell : ∀ c, (retrieve' c).cell = (retrieve c).cell) (settled : Option (Bool × Cell V)) :
    (s.afterSettling id (settled.map fun x => retrieve' x.2)).2.uncounted =
      (s.afterSettling id (settled.map fun x => retrieve x.2)).2.uncounted := by
  cases settled with
  | none => rfl
  | some x => exact uncounted_retrieve (hcell x.2) _ _ _ _

theorem call_takeOrCancelAfter (s : Session V) (h : Handle V) (p : Patience) :
    s.call h (.takeOrCancelAfter p) = s.afterSettling h.cell
      (((s.store.cell h.cell).cancelAfter p).map fun x => h.chain.takeFinal x.2) := by
  rw [call_eq, ← Chain.takeOrCancelAfter_eq]
  rfl

/-- **Through whichever chain a call is made**, the same becomes of the result, and of everything
else but the account of the transforms that were called. -/
theorem uncounted_call {h' : Handle V} (hcell : h'.cell = h.cell) (call : Call) :
    (s.call h' call).2.uncounted = (s.call h call).2.uncounted := by
  obtain ⟨id, ch⟩ := h
  obtain ⟨_, ch'⟩ := h'
  obtain rfl := hcell
  have hget (c : Cell V) : (ch'.get c).cell = (ch.get c).cell := by
    rw [Chain.cell_get, Chain.cell_get]
  have htake (c : Cell V) : (ch'.take c).cell = (ch.take c).cell := by
    rw [Chain.cell_take, Chain.cell_take]
  have htakeFinal (c : Cell V) : (ch'.takeFinal c).cell = (ch.takeFinal c).cell := by
    rw [Chain.cell_takeFinal, Chain.cell_takeFinal]
  cases call with
  | wait | waitFinal | waitFor p | waitFinalFor p | cancelAfter p | cancel =>
    rw [call_eq, call_eq]
    rfl
  | tryGet =>
    rw [call_tryGet, call_tryGet]
    exact uncounted_retrieve (hget _) _ _ _ _
  | tryTake =>
    rw [call_eq, call_eq]
    exact uncounted_retrieve (htake _) _ _ _ _
  | tryTakeFinal =>
    rw [call_eq, call_eq]
    exact uncounted_retrieve (htakeFinal _) _ _ _ _
  | getOrCancel =>
    rw [call_getOrCancel, call_getOrCancel]
    exact uncounted_retrieve (hget _) _ _ _ _
  | getOrCancelAfter p =>
    rw [call_getOrCancelAfter, call_getOrCancelAfter]
    exact uncounted_afterSettling hget _
  | takeOrCancelAfter p =>
    rw [call_takeOrCancelAfter, call_takeOrCancelAfter]
    exact uncounted_afterSettling htakeFinal _

/-- Looking leaves the value where it is. -/
theorem store_tryGet (s : Session V) (h : Handle V) : (s.call h .tryGet).2.store = s.store := by
  rw [call_tryGet]
  show s.store.setCell h.cell (h.chain.get (s.store.cell h.cell)).cell = s.store
  rw [Chain.cell_get, Store.setCell_cell]

/-- All that a call does that cancels and then looks is to cancel. -/
theorem store_getOrCancel (s : Session V) (h : Handle V) :
    (s.call h .getOrCancel).2.store = (s.call h .cancel).2.store := by
  rw [call_getOrCancel, call_eq]
  show s.store.setCell h.cell (h.chain.get (s.store.cell h.cell).cancel.2).cell = _
  rw [Chain.cell_get]
  rfl

theorem store_getOrCancelAfter (s : Session V) (h : Handle V) (p : Patience) :
    (s.call h (.getOrCancelAfter p)).2.store = (s.call h (.cancelAfter p)).2.store := by
  rw [call_getOrCancelAfter, call_eq]
  cases hcancel : (s.store.cell h.cell).cancelAfter p with
  | none =>
    simp only [callThrough, Control.direct, hcancel]
    rfl
  | some x =>
    simp only [callThrough, Control.direct, hcancel]
    show s.store.setCell h.cell (h.chain.get x.2).cell = _
    rw [Chain.cell_get]
    rfl

end Session

end WireForm.Sync
