import Mathlib.Data.List.Forall2
import WireForm.Step

/-!
# Reading off how an outcome came about

A chain of outcomes ends in a value when every link did. The lemmas below take such a chain apart
link by link, so that no later proof splits on the outcomes themselves. The same goes for steps,
where the state comes along.

## Main results

* `Outcome.bind_eq_ok`, `Outcome.map_eq_ok` — one link
* `Outcome.mapM_eq_ok`, `Outcome.mapM_eq_error` — a list of outcomes, element by element
* `Outcome.forM_discard` — a list of outcomes whose values do not matter
* `Outcome.bind_ne_crash`, `Outcome.mapM_ne_crash` — a chain crashes only where a link does
* `Step.bind_eq_ok` — one link of a chain of steps
-/

namespace WireForm

/-- What follows for the first of two related elements holds all along the first list. -/
theorem forall_mem_of_forall₂ {α β : Type} {R : α → β → Prop} {p : α → Prop} {as : List α}
    {bs : List β} (h : List.Forall₂ R as bs) (hp : ∀ a b, R a b → p a) : ∀ a ∈ as, p a :=
  ((List.forall₂_and_left as bs).mp (h.imp fun a b hab => ⟨hp a b hab, hab⟩)).1

namespace Outcome

variable {α β : Type}

@[simp] theorem ok_bind (a : α) (f : α → Outcome β) : (Except.ok a >>= f : Outcome β) = f a := rfl

@[simp] theorem error_bind (fault : Fault) (f : α → Outcome β) :
    (Except.error fault >>= f : Outcome β) = .error fault := rfl

@[simp] theorem pure_eq_ok (a : α) : (pure a : Outcome α) = .ok a := rfl

/-- Whatever the faults are, a chain ends in a value when both of its links do. -/
theorem bind_eq_ok {ε : Type} {x : Except ε α} {f : α → Except ε β} {b : β} :
    x >>= f = .ok b ↔ ∃ a, x = .ok a ∧ f a = .ok b := by
  cases x with
  | ok a => exact ⟨fun h => ⟨a, rfl, h⟩, fun ⟨_, ha, h⟩ => Except.ok.inj ha ▸ h⟩
  | error fault => exact ⟨nofun, fun ⟨_, ha, _⟩ => nomatch ha⟩

theorem map_eq_ok {ε : Type} {x : Except ε α} {f : α → β} {b : β} :
    x.map f = .ok b ↔ ∃ a, x = .ok a ∧ f a = b := by
  cases x <;> simp [Except.map]

/-- What becomes of a fault makes no difference to a value. -/
theorem mapError_eq_ok {ε ε' : Type} {x : Except ε α} {f : ε → ε'} {a : α} :
    x.mapError f = .ok a ↔ x = .ok a := by
  cases x <;> simp [Except.mapError]

/-- A chain crashes only where one of its links does, the second on what the first gives. -/
theorem bind_ne_crash_of_ok {x : Outcome α} {f : α → Outcome β} (hx : x ≠ crash)
    (hf : ∀ a, x = .ok a → f a ≠ crash) : x >>= f ≠ crash := by
  cases x with
  | ok a => exact hf a rfl
  | error fault =>
    intro h
    obtain rfl := Except.error.inj h
    exact hx rfl

theorem bind_ne_crash {x : Outcome α} {f : α → Outcome β} (hx : x ≠ crash) (hf : ∀ a, f a ≠ crash) :
    x >>= f ≠ crash :=
  bind_ne_crash_of_ok hx fun a _ => hf a

theorem map_ne_crash {x : Outcome α} (hx : x ≠ crash) (f : α → β) : x.map f ≠ crash := by
  cases x with
  | ok a =>
    intro h
    cases h
  | error fault =>
    intro h
    obtain rfl := Except.error.inj h
    exact hx rfl

theorem ok_ne_crash (a : α) : (Except.ok a : Outcome α) ≠ crash := fun h => by cases h

theorem refuse_ne_crash (error : Error) : (refuse error : Outcome α) ≠ crash := fun h => by cases h

/-- Of what may be missing, only what is there is not refused. -/
theorem elim_refuse_eq_ok {o : Option α} {error : Error} {a : α} :
    o.elim (refuse error) Except.ok = .ok a ↔ o = some a := by
  cases o with
  | none => exact ⟨fun h => (by cases h), fun h => (by cases h)⟩
  | some b => simp

theorem mapM_eq_ok {ε : Type} {f : α → Except ε β} {as : List α} {bs : List β} :
    as.mapM f = .ok bs ↔ List.Forall₂ (fun a b => f a = .ok b) as bs := by
  induction as generalizing bs with
  | nil =>
    rw [List.mapM_nil, List.forall₂_nil_left_iff]
    exact ⟨fun h => (Except.ok.inj h).symm, fun h => congrArg _ h.symm⟩
  | cons a as ih =>
    rw [List.mapM_cons, List.forall₂_cons_left_iff]
    constructor
    · intro h
      obtain ⟨b, hb, h⟩ := bind_eq_ok.mp h
      obtain ⟨bs', hbs, h⟩ := bind_eq_ok.mp h
      exact ⟨b, bs', hb, ih.mp hbs, (Except.ok.inj h).symm⟩
    · rintro ⟨b, bs', hb, hbs, rfl⟩
      rw [hb, ih.mpr hbs]
      rfl

/-- A list of outcomes fails as the first of them does that fails. -/
theorem mapM_eq_error {ε : Type} {f : α → Except ε β} {as : List α} {fault : ε} :
    as.mapM f = .error fault ↔ ∃ before a after, as = before ++ a :: after ∧
      (∀ earlier ∈ before, ∃ b, f earlier = .ok b) ∧ f a = .error fault := by
  induction as with
  | nil =>
    refine ⟨fun h => (by cases h), ?_⟩
    rintro ⟨before, a, after, hsplit, -⟩
    exact absurd hsplit (by simp)
  | cons a as ih =>
    rw [List.mapM_cons]
    constructor
    · intro h
      cases ha : f a with
      | error e =>
        rw [ha] at h
        exact ⟨[], a, as, rfl, by simp, ha.trans (congrArg _ (Except.error.inj h))⟩
      | ok b =>
        cases has : as.mapM f with
        | ok bs => rw [ha, has] at h; cases h
        | error e =>
          rw [ha, has] at h
          obtain rfl : e = fault := Except.error.inj h
          obtain ⟨before, bad, after, rfl, hbefore, hbad⟩ := ih.mp has
          exact ⟨a :: before, bad, after, rfl, List.forall_mem_cons.mpr ⟨⟨b, ha⟩, hbefore⟩, hbad⟩
    · rintro ⟨before, bad, after, hsplit, hbefore, hbad⟩
      cases before with
      | nil =>
        obtain ⟨rfl, rfl⟩ := List.cons.inj hsplit
        rw [hbad]
        rfl
      | cons first before =>
        obtain ⟨rfl, htail⟩ := List.cons.inj hsplit
        obtain ⟨⟨b, hb⟩, hbefore⟩ := List.forall_mem_cons.mp hbefore
        rw [hb, ih.mpr ⟨before, bad, after, htail, hbefore, hbad⟩]
        rfl

section Discard

variable {ε : Type}

/-- What is made of a value makes no difference to a failure. -/
theorem map_eq_error {x : Except ε α} {f : α → β} {fault : ε} :
    x.map f = .error fault ↔ x = .error fault := by
  cases x with
  | ok a => exact ⟨nofun, nofun⟩
  | error e =>
    exact ⟨fun h => congrArg _ (Except.error.inj h), fun h => congrArg _ (Except.error.inj h)⟩

theorem discard_eq_ok {x : Except ε α} {u : PUnit} : discard x = .ok u ↔ ∃ a, x = .ok a := by
  cases x with
  | ok a => exact ⟨fun _ => ⟨a, rfl⟩, fun _ => rfl⟩
  | error e => exact ⟨nofun, nofun⟩

/-- A list of outcomes whose values do not matter. -/
theorem forM_discard (f : α → Except ε β) (as : List α) :
    (as.forM fun a => discard (f a)) = discard (as.mapM f) := by
  induction as with
  | nil => rfl
  | cons a as ih =>
    rw [List.forM, List.mapM_cons]
    cases f a with
    | error e => rfl
    | ok b =>
      refine Eq.trans (b := as.forM fun a => discard (f a)) rfl (ih.trans ?_)
      cases as.mapM f <;> rfl

theorem forM_discard_eq_ok {f : α → Except ε β} {as : List α} {u : PUnit} :
    (as.forM fun a => discard (f a)) = .ok u ↔ ∀ a ∈ as, ∃ b, f a = .ok b := by
  induction as with
  | nil => exact ⟨fun _ => nofun, fun _ => rfl⟩
  | cons a as ih =>
    rw [List.forM, bind_eq_ok, List.forall_mem_cons]
    simp only [discard_eq_ok, ih]
    exact ⟨fun ⟨_, ha, has⟩ => ⟨ha, has⟩, fun ⟨ha, has⟩ => ⟨⟨⟩, ha, has⟩⟩

theorem forM_discard_eq_error {f : α → Except ε β} {as : List α} {fault : ε} :
    (as.forM fun a => discard (f a)) = .error fault ↔ as.mapM f = .error fault := by
  rw [forM_discard]
  exact map_eq_error

end Discard

theorem mapM_ne_crash {f : α → Outcome β} {as : List α} (h : ∀ a ∈ as, f a ≠ crash) :
    as.mapM f ≠ crash := by
  induction as with
  | nil => exact ok_ne_crash []
  | cons a as ih =>
    obtain ⟨ha, has⟩ := List.forall_mem_cons.mp h
    rw [List.mapM_cons]
    exact bind_ne_crash ha fun b => bind_ne_crash (ih has) fun bs => ok_ne_crash (b :: bs)

end Outcome

/-! ### Steps -/

namespace Step

variable {σ α β : Type}

theorem get_bind (f : σ → Step σ β) (s : σ) : (get >>= f) s = f s s := rfl

theorem lift_ok_bind (a : α) (f : α → Step σ β) : (lift (.ok a) >>= f) = f a := rfl

/-- A chain of steps ends in a value when both of its links do. -/
theorem bind_eq_ok {x : Step σ α} {f : α → Step σ β} {s s'' : σ} {b : β} :
    (x >>= f) s = (.ok b, s'') ↔ ∃ a s', x s = (.ok a, s') ∧ f a s' = (.ok b, s'') := by
  rw [bind_apply]
  rcases x s with ⟨fault | a, s'⟩ <;> simp

end Step

end WireForm
