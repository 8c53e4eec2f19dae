import WireForm.Proofs.OneShot

/-!
# Gates open once

Some calls can open a gate, and their answers mean different things: one says whether it opened the
gate, another whether the gate opened by itself, and two whether the gate is open now. Callbacks run
under the lock in four roles, and each of them may change the payload, also the one that decides
whether the gate opens when it decides against.

Here calls come one after the other, in any order and with any callbacks. A call that waits stands
where its waiting ends, with the gate open by then or not; one that waits for ever gives no answer
and changes nothing. Every callback hands out a note that it ran, so what ran is read off the
answers.

## Main definitions

* `Gate.Role`, `Gate.Ran` — the notes of callbacks
* `Gate.Call`, `Gate.perform` — the calls
* `Gate.after`, `Gate.history` — a run of calls
* `Gate.Moment.reportsOpening` — answers that say that the call opened the gate
* `Gate.Moment.Orderly` — what a single call does

## Main results

* `Gate.perform_of_open`, `Gate.perform_of_closed` — the calls, on an open gate and on a closed one
* `Gate.orderly_moment`, `Gate.toNat_isOpen_moment` — what holds of every call
* `Gate.toNat_isOpen_after`, `Gate.value_after` — and of every run
* `Gate.gates_open_once`
-/

namespace WireForm.Sync

namespace Gate

/-! ### Calls and callbacks -/

/-- What a callback is run for. -/
inductive Role where
  /-- To decide whether a closed gate opens, with this decision. -/
  | decide (opens : Bool)
  /-- To see a gate that was open already. -/
  | alreadyOpen
  /-- To see a gate that is forced open. -/
  | onForce
  /-- To see the gate as it is. -/
  | critical
  deriving DecidableEq, Repr

/-- A callback that ran. -/
structure Ran (α : Type) where
  /-- What it was run for. -/
  role : Role
  /-- What it does to a payload. -/
  effect : α → α

/-- A call, with its callbacks. -/
inductive Call (α : Type) where
  | isOpen
  | release
  | maybeOpen (decide : α → Bool × α)
  | maybeOpenOr (decide : α → Bool × α) (alreadyOpen : α → α)
  | openAfter (p : Patience) (onForce : α → α)
  | critical (f : Bool → α → α)

/-- What comes of a call. -/
structure Answer (α : Type) where
  /-- What it gives, if that is a truth value. -/
  result : Option Bool
  /-- The callback that ran, if one did. -/
  ran : Option (Ran α)

variable {α : Type}

/-- The note of a callback that decided about this payload. -/
def Ran.decision (decide : α → Bool × α) (value : α) : Ran α :=
  ⟨.decide (decide value).1, fun value => (decide value).2⟩

/-- A callback that decides, and notes that it ran. -/
def noteDecision (decide : α → Bool × α) (value : α) : Ran α × Bool × α :=
  (.decision decide value, decide value)

/-- A callback that changes the payload, and notes that it ran. -/
def noteChange (role : Role) (change : α → α) (value : α) : Ran α × α :=
  (⟨role, change⟩, change value)

/-- Make a call. -/
def perform (g : Gate α) : Call α → Answer α × Gate α
  | .isOpen => (⟨some g.isOpen, none⟩, g)
  | .release =>
    let (opened, g) := g.release
    (⟨some opened, none⟩, g)
  | .maybeOpen decide =>
    let ((ran, isOpen), g) := g.maybeOpen (noteDecision decide)
    (⟨some isOpen, ran⟩, g)
  | .maybeOpenOr decide alreadyOpen =>
    let ((ran, isOpen), g) :=
      g.maybeOpenOr (noteDecision decide) (noteChange .alreadyOpen alreadyOpen)
    (⟨some isOpen, some ran⟩, g)
  | .openAfter p onForce =>
    match g.openAfter p (noteChange .onForce onForce) with
    | none => (⟨none, none⟩, g)
    | some ((inTime, ran), g) => (⟨some inTime, ran⟩, g)
  | .critical f =>
    let (ran, g) := g.critical fun isOpen => noteChange .critical (f isOpen)
    (⟨none, some ran⟩, g)

/-! ### Runs -/

/-- A call, and the gate before and after it. -/
structure Moment (α : Type) where
  /-- The gate before the call. -/
  before : Gate α
  /-- The call. -/
  call : Call α
  /-- What came of it. -/
  answer : Answer α
  /-- The gate after the call. -/
  after : Gate α

/-- A call, with what comes of it. -/
def moment (g : Gate α) (call : Call α) : Moment α :=
  ⟨g, call, (g.perform call).1, (g.perform call).2⟩

/-- The gate after these calls. -/
def after (g : Gate α) (calls : List (Call α)) : Gate α :=
  calls.foldl (fun g call => (g.moment call).after) g

/-- These calls, one after the other. -/
def history : Gate α → List (Call α) → List (Moment α)
  | _, [] => []
  | g, call :: calls => g.moment call :: history (g.moment call).after calls

/-- The answer says that the call opened the gate. -/
def Moment.reportsOpening (m : Moment α) : Bool :=
  match m.call, m.answer with
  | .release, ⟨some true, _⟩ => true
  | .openAfter .., ⟨some false, _⟩ => true
  | .maybeOpen _, ⟨_, some ⟨.decide true, _⟩⟩ => true
  | .maybeOpenOr .., ⟨_, some ⟨.decide true, _⟩⟩ => true
  | _, _ => false

/-- The callback of a call that is to run on this gate, if one is. -/
def Call.due (g : Gate α) : Call α → Option (Ran α)
  | .isOpen | .release => none
  | .maybeOpen decide => if g.isOpen then none else some (.decision decide g.value)
  | .maybeOpenOr decide alreadyOpen =>
    some (if g.isOpen then ⟨.alreadyOpen, alreadyOpen⟩ else .decision decide g.value)
  | .openAfter p onForce =>
    if g.isOpen ∨ p = .unbounded then none else some ⟨.onForce, onForce⟩
  | .critical f => some ⟨.critical, f g.isOpen⟩

/-- Whether a call leaves it to a callback if a closed gate opens. -/
def Call.asks : Call α → Bool
  | .maybeOpen _ | .maybeOpenOr _ _ => true
  | _ => false

/-- What a call does to a gate, and which callback runs. -/
structure Moment.Orderly (m : Moment α) : Prop where
  /-- The callback runs that is to, as it was given, and no other. -/
  ran_eq : m.answer.ran = m.call.due m.before
  /-- A callback decides about a closed gate, and what it says is done. -/
  of_decide : ∀ opens effect, m.answer.ran = some ⟨.decide opens, effect⟩ →
    m.before.isOpen = false ∧ m.after.isOpen = opens
  /-- A gate that is forced open was closed. -/
  of_onForce : ∀ effect, m.answer.ran = some ⟨.onForce, effect⟩ →
    m.before.isOpen = false ∧ m.after.isOpen = true
  /-- A gate that a callback sees because it was open already was open. -/
  of_alreadyOpen : ∀ effect, m.answer.ran = some ⟨.alreadyOpen, effect⟩ →
    m.before.isOpen = true
  /-- A call that leaves the opening to a callback says whether the gate is open afterwards. -/
  result_eq : m.call.asks = true → m.answer.result = some m.after.isOpen
  /-- The payload is changed by the callback that ran, and by nothing else. -/
  value_eq : m.after.value = m.answer.ran.elim m.before.value fun ran => ran.effect m.before.value

/-! ### What a call does -/

section Calls

variable {g : Gate α}

/-- What a call does to an open gate. -/
theorem perform_of_open (h : g.isOpen = true) (call : Call α) :
    g.perform call =
      match call with
      | .isOpen => (⟨some true, none⟩, g)
      | .release => (⟨some false, none⟩, g)
      | .maybeOpen _ => (⟨some true, none⟩, g)
      | .maybeOpenOr _ f => (⟨some true, some ⟨.alreadyOpen, f⟩⟩, ⟨true, f g.value⟩)
      | .openAfter _ _ => (⟨some true, none⟩, g)
      | .critical f => (⟨none, some ⟨.critical, f true⟩⟩, ⟨true, f true g.value⟩) := by
  obtain ⟨isOpen, value⟩ := g
  obtain rfl : isOpen = true := h
  cases call with
  | openAfter p f => cases p <;> rfl
  | _ => rfl

/-- What a call does to a closed gate. -/
theorem perform_of_closed (h : g.isOpen = false) (call : Call α) :
    g.perform call =
      match call with
      | .isOpen => (⟨some false, none⟩, g)
      | .release => (⟨some true, none⟩, ⟨true, g.value⟩)
      | .maybeOpen decide | .maybeOpenOr decide _ =>
        (⟨some (decide g.value).1, some (.decision decide g.value)⟩,
          ⟨(decide g.value).1, (decide g.value).2⟩)
      | .openAfter .bounded f => (⟨some false, some ⟨.onForce, f⟩⟩, ⟨true, f g.value⟩)
      | .openAfter .unbounded _ => (⟨none, none⟩, g)
      | .critical f => (⟨none, some ⟨.critical, f false⟩⟩, ⟨false, f false g.value⟩) := by
  obtain ⟨isOpen, value⟩ := g
  obtain rfl : isOpen = false := h
  cases call with
  | openAfter p f => cases p <;> rfl
  | _ => rfl

variable {call : Call α} {effect : α → α}

theorem ran_perform (g : Gate α) (call : Call α) : (g.perform call).1.ran = call.due g := by
  cases hopen : g.isOpen with
  | true =>
    rw [perform_of_open hopen]
    cases call <;> simp [Call.due, hopen]
  | false =>
    rw [perform_of_closed hopen]
    cases call with
    | openAfter p f => cases p <;> simp [Call.due, hopen]
    | _ => simp [Call.due, hopen]

theorem isOpen_of_decide {opens : Bool}
    (h : (g.perform call).1.ran = some ⟨.decide opens, effect⟩) :
    g.isOpen = false ∧ (g.perform call).2.isOpen = opens := by
  cases hopen : g.isOpen with
  | true =>
    rw [perform_of_open hopen] at h
    cases call <;> cases h
  | false =>
    rw [perform_of_closed hopen] at h ⊢
    cases call with
    | maybeOpen decide | maybeOpenOr decide _ => exact ⟨rfl, by cases h; rfl⟩
    | openAfter p f => cases p <;> cases h
    | isOpen | release | critical f => cases h

theorem isOpen_of_onForce (h : (g.perform call).1.ran = some ⟨.onForce, effect⟩) :
    g.isOpen = false ∧ (g.perform call).2.isOpen = true := by
  cases hopen : g.isOpen with
  | true =>
    rw [perform_of_open hopen] at h
    cases call <;> cases h
  | false =>
    rw [perform_of_closed hopen] at h ⊢
    cases call with
    | openAfter p f =>
      cases p with
      | bounded => exact ⟨rfl, rfl⟩
      | unbounded => cases h
    | _ => cases h

theorem isOpen_of_alreadyOpen (h : (g.perform call).1.ran = some ⟨.alreadyOpen, effect⟩) :
    g.isOpen = true := by
  cases hopen : g.isOpen with
  | true => rfl
  | false =>
    rw [perform_of_closed hopen] at h
    cases call with
    | openAfter p f => cases p <;> cases h
    | _ => cases h

theorem result_of_asks (h : call.asks = true) :
    (g.perform call).1.result = some (g.perform call).2.isOpen := by
  cases hopen : g.isOpen with
  | true =>
    rw [perform_of_open hopen]
    cases call with
    | maybeOpen decide => rw [hopen]
    | maybeOpenOr decide f => rfl
    | _ => cases h
  | false =>
    rw [perform_of_closed hopen]
    cases call with
    | maybeOpen decide | maybeOpenOr decide _ => rfl
    | _ => cases h

theorem value_perform (g : Gate α) (call : Call α) : (g.perform call).2.value =
    (g.perform call).1.ran.elim g.value fun ran => ran.effect g.value := by
  cases hopen : g.isOpen with
  | true =>
    rw [perform_of_open hopen]
    cases call <;> rfl
  | false =>
    rw [perform_of_closed hopen]
    cases call with
    | openAfter p f => cases p <;> rfl
    | _ => rfl

theorem orderly_moment (g : Gate α) (call : Call α) : (g.moment call).Orderly where
  ran_eq := ran_perform g call
  of_decide _ _ := isOpen_of_decide
  of_onForce _ := isOpen_of_onForce
  of_alreadyOpen _ := isOpen_of_alreadyOpen
  result_eq := result_of_asks
  value_eq := value_perform g call

/-- The gate is open after a call if it was open before, or if the call says that it opened it, and
never both. -/
theorem toNat_isOpen_moment (g : Gate α) (call : Call α) : (g.moment call).after.isOpen.toNat =
    g.isOpen.toNat + (g.moment call).reportsOpening.toNat := by
  rw [moment, Moment.reportsOpening]
  cases hopen : g.isOpen with
  | true =>
    rw [perform_of_open hopen]
    cases call with
    | isOpen | release | maybeOpen | openAfter => exact congrArg Bool.toNat hopen
    | maybeOpenOr | critical => rfl
  | false =>
    rw [perform_of_closed hopen]
    cases call with
    | maybeOpen decide | maybeOpenOr decide _ =>
      show (decide g.value).1.toNat = _
      dsimp only [Ran.decision]
      cases (decide g.value).1 <;> rfl
    | openAfter p f =>
      cases p with
      | bounded => rfl
      | unbounded => exact congrArg Bool.toNat hopen
    | isOpen => exact congrArg Bool.toNat hopen
    | release | critical => rfl

end Calls

/-! ### What a run does -/

section Runs

variable {g : Gate α}

theorem after_append (g : Gate α) (earlier later : List (Call α)) :
    g.after (earlier ++ later) = (g.after earlier).after later := List.foldl_append

theorem forall_orderly (g : Gate α) (calls : List (Call α)) : ∀ m ∈ g.history calls, m.Orderly := by
  induction calls generalizing g with
  | nil => exact nofun
  | cons call calls ih => exact List.forall_mem_cons.mpr ⟨g.orderly_moment call, ih _⟩

/-- The gate is open after a run if it was open before, or if one of the calls says that it opened
it, and never two of these. -/
theorem toNat_isOpen_after (g : Gate α) (calls : List (Call α)) :
    (g.after calls).isOpen.toNat =
      g.isOpen.toNat + (g.history calls).countP Moment.reportsOpening := by
  induction calls generalizing g with
  | nil => rfl
  | cons call calls ih =>
    show ((g.moment call).after.after calls).isOpen.toNat = _
    rw [ih, toNat_isOpen_moment, history, List.countP_cons, Nat.add_right_comm, Nat.add_assoc]
    cases (g.moment call).reportsOpening <;> rfl

theorem isOpen_after (h : g.isOpen = true) (calls : List (Call α)) :
    (g.after calls).isOpen = true := by
  have htoNat := toNat_isOpen_after g calls
  have hle := Bool.toNat_le (g.after calls).isOpen
  rw [h, Bool.toNat_true] at htoNat
  exact Bool.toNat_eq_one.mp (by omega)

theorem value_after (g : Gate α) (calls : List (Call α)) : (g.after calls).value =
    ((g.history calls).filterMap fun m => m.answer.ran).foldl (fun value ran => ran.effect value)
      g.value := by
  induction calls generalizing g with
  | nil => rfl
  | cons call calls ih =>
    have hvalue := (g.orderly_moment call).value_eq
    show ((g.moment call).after.after calls).value = _
    rw [ih, hvalue, history, List.filterMap_cons]
    cases (g.moment call).answer.ran <;> rfl

end Runs

/-- **A gate opens once, and only callbacks change its payload.** Whatever is called on a new gate,
in whatever order and with whatever callbacks: once it is open it stays open. One answer says that
the call opened the gate if the gate is open in the end, and none does if it is closed. Callbacks
that decide or see a gate forced open run on closed gates only, and those that see it open already
on open ones only. The payload is what the callbacks that ran make of the initial one, in their
order, whether they opened the gate or not. -/
theorem gates_open_once {α : Type} (value : α) (calls : List (Call α)) :
    let final := (closed value).after calls
    let history := (closed value).history calls
    (∀ earlier later, calls = earlier ++ later →
      ((closed value).after earlier).isOpen = true → final.isOpen = true) ∧
    history.countP Moment.reportsOpening = (if final.isOpen then 1 else 0) ∧
    (∀ m ∈ history, m.Orderly) ∧
    final.value = (history.filterMap fun m => m.answer.ran).foldl
      (fun value ran => ran.effect value) value := by
  intro final history
  refine ⟨?_, ?_, forall_orderly _ calls, value_after _ calls⟩
  · rintro earlier later rfl hopen
    show ((closed value).after (earlier ++ later)).isOpen = true
    rw [after_append]
    exact isOpen_after hopen later
  · have htoNat : final.isOpen.toNat = 0 + history.countP Moment.reportsOpening :=
      toNat_isOpen_after (closed value) calls
    rw [Nat.zero_add] at htoNat
    rw [← htoNat]
    cases final.isOpen <;> rfl

/-- The first callback decides against opening, and its change stays. -/
example : (closed 0).after [.maybeOpen fun n => (false, n + 1), .maybeOpen fun n => (true, n + 1),
    .maybeOpenOr (fun n => (false, n)) (· + 10), .openAfter .bounded fun _ => 0] = ⟨true, 12⟩ :=
  rfl

end Gate

end WireForm.Sync
