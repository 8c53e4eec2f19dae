import Mathlib.Data.List.Nodup
import Mathlib.Logic.Relation
import WireForm.Sync.Lock

/-!
# Who holds a lock

However a lock is used, a guard that holds it for writing is the only one, and no name has two
guards. So the lock can be had for writing just when nobody holds it, and for reading just when
nobody writes, and what a reader sees stays as it is for as long as the reader holds the lock.

## Main definitions

* `Lock.Sound` — no two guards of one name, and no guard beside that of a writer
* `Lock.Step` — what is done with a lock

## Main results

* `Lock.Sound.acquire_read`, `Lock.acquire_write` — when a lock can be had
* `Lock.get?_eq_some`, `Lock.Sound.set?_eq_some` — who sees its value, and who can set it
* `Lock.Sound.step`, `Lock.sound_of_free` — locks are sound, whatever is done with them
* `Lock.Sound.value_eq_of_run` — what readers see
-/

namespace WireForm.Sync

namespace Lock

variable {α : Type} {l l' : Lock α} {access : Access} {name : String} {value : α}

/-- The guards of a lock are in order. -/
structure Sound (l : Lock α) : Prop where
  /-- No name has two guards. -/
  nodup : (l.guards.map Prod.fst).Nodup
  /-- A guard for writing is the only one. -/
  alone : ∀ name, (name, Access.write) ∈ l.guards → l.guards = [(name, .write)]

/-- What is done with a lock, if it can be done. -/
inductive Step : Lock α → Lock α → Prop where
  /-- A guard was had. -/
  | acquire {l l' : Lock α} {access : Access} {name : String}
    (h : l.acquire access name = some l') : Step l l'
  /-- A guard was given back, or there was none. -/
  | release (l : Lock α) (name : String) : Step l (l.release name).2
  /-- The value was set through a guard. -/
  | set {l l' : Lock α} {name : String} {value : α} (h : l.set? name value = some l') : Step l l'
  /-- The value was changed while nobody held the lock. -/
  | exclusive {l l' : Lock α} {f : α → α} (h : l.exclusive f = some l') : Step l l'

/-! ### Single calls -/

theorem admits_read : l.admits .read = true ↔ ∀ guard ∈ l.guards, guard.2 = .read := by
  simp [admits]

theorem admits_write : l.admits .write = true ↔ l.guards = [] := by
  simp [admits]

theorem acquire_eq_some : l.acquire access name = some l' ↔ l.admits access = true ∧
    l' = ⟨l.value, (name, access) :: l.guards.filter (·.1 != name)⟩ := by
  rw [acquire]
  split
  · rename_i h
    simp [h, eq_comm]
  · rename_i h
    simp [h]

theorem exclusive_eq_some {f : α → α} :
    l.exclusive f = some l' ↔ l.guards = [] ∧ l' = ⟨f l.value, l.guards⟩ := by
  rw [exclusive]
  split
  · rename_i h
    simp [List.isEmpty_iff.mp h, eq_comm]
  · rename_i h
    simp [mt List.isEmpty_iff.mpr h]

theorem mem_of_lookup_eq_some {guards : List (String × Access)}
    (h : guards.lookup name = some access) : (name, access) ∈ guards := by
  obtain ⟨front, behind, rfl, -⟩ := List.lookup_eq_some_iff.mp h
  exact List.mem_append_right _ (List.mem_cons_self ..)

/-- A guard sees the value, and nobody else does. -/
theorem get?_eq_some : l.get? name = some value ↔
    value = l.value ∧ ∃ access, (name, access) ∈ l.guards := by
  rw [get?, Option.map_eq_some_iff]
  constructor
  · rintro ⟨access, haccess, rfl⟩
    exact ⟨rfl, access, mem_of_lookup_eq_some haccess⟩
  · rintro ⟨rfl, access, hmem⟩
    obtain ⟨found, hfound⟩ := Option.isSome_iff_exists.mp
      (List.lookup_isSome_iff.mpr ⟨(name, access), hmem, beq_self_eq_true name⟩)
    exact ⟨found, hfound, rfl⟩

namespace Sound

/-- Without two guards of a name, the guard of a name is the one that is found. -/
theorem lookup_eq_some (h : l.Sound) :
    l.guards.lookup name = some access ↔ (name, access) ∈ l.guards := by
  refine ⟨mem_of_lookup_eq_some, fun hmem => ?_⟩
  obtain ⟨found, hfound⟩ := Option.isSome_iff_exists.mp
    (List.lookup_isSome_iff.mpr ⟨(name, access), hmem, beq_self_eq_true name⟩)
  have hsame := List.inj_on_of_nodup_map h.nodup (mem_of_lookup_eq_some hfound) hmem rfl
  rw [hfound, (Prod.mk.inj hsame).2]

/-- **The value can be set just by the only guard**, if it is one for writing. -/
theorem set?_eq_some (h : l.Sound) : l.set? name value = some l' ↔
    l.guards = [(name, .write)] ∧ l' = ⟨value, l.guards⟩ := by
  have hwriter : (l.guards.lookup name == some .write) = true ↔ l.guards = [(name, .write)] := by
    rw [beq_iff_eq, h.lookup_eq_some]
    refine ⟨h.alone name, fun hguards => ?_⟩
    rw [hguards]
    exact List.mem_singleton_self _
  rw [set?]
  split
  · rename_i hset
    simp [hwriter.mp hset, eq_comm]
  · rename_i hset
    simp [mt hwriter.mpr hset]

/-- **For reading the lock can be had just when nobody writes.** -/
theorem acquire_read (h : l.Sound) (name : String) :
    (l.acquire .read name).isSome ↔ ∀ writer, l.guards ≠ [(writer, .write)] := by
  rw [Option.isSome_iff_exists]
  simp only [acquire_eq_some, exists_and_left, exists_eq, and_true, admits_read]
  constructor
  · rintro hall writer hguards
    cases hall (writer, .write) (hguards ▸ List.mem_singleton_self _)
  · rintro hnone ⟨holder, access⟩ hmem
    cases access with
    | read => rfl
    | write => exact absurd (h.alone holder hmem) (hnone holder)

end Sound

/-- **For writing the lock can be had just when nobody holds it.** -/
theorem acquire_write (l : Lock α) (name : String) :
    (l.acquire .write name).isSome ↔ l.guards = [] := by
  rw [Option.isSome_iff_exists]
  simp only [acquire_eq_some, exists_and_left, exists_eq, and_true, admits_write]

/-! ### Any calls -/

theorem sound_free (value : α) : (free value).Sound := ⟨List.nodup_nil, nofun⟩

theorem Sound.filter (h : l.Sound) (keeps : String × Access → Bool) :
    Sound ⟨l.value, l.guards.filter keeps⟩ where
  nodup := h.nodup.sublist (List.filter_sublist.map Prod.fst)
  alone name hmem := by
    have hkept := (List.mem_filter.mp hmem).2
    show l.guards.filter keeps = _
    rw [h.alone name (List.mem_filter.mp hmem).1, List.filter_cons_of_pos hkept, List.filter_nil]

/-- Whatever is done with it, a lock stays sound. -/
theorem Sound.step (h : l.Sound) (hstep : l.Step l') : l'.Sound := by
  cases hstep with
  | @acquire _ access name hacquire =>
    obtain ⟨hadmits, rfl⟩ := acquire_eq_some.mp hacquire
    have hothers := h.filter (·.1 != name)
    refine ⟨?_, fun writer hwriter => ?_⟩
    · show ((name, access) :: l.guards.filter (·.1 != name)).map Prod.fst |>.Nodup
      rw [List.map_cons, List.nodup_cons]
      refine ⟨fun hmem => ?_, hothers.nodup⟩
      obtain ⟨guard, hguard, rfl⟩ := List.mem_map.mp hmem
      simp at hguard
    -- A writer is not let in beside others, nor a reader beside a writer.
    · cases access with
      | read =>
        rcases List.mem_cons.mp hwriter with heq | hmem
        · cases heq
        · cases admits_read.mp hadmits _ (List.mem_filter.mp hmem).1
      | write =>
        have hnone := admits_write.mp hadmits
        rcases List.mem_cons.mp hwriter with heq | hmem
        · obtain rfl := (Prod.mk.inj heq).1
          show (writer, Access.write) :: l.guards.filter _ = _
          rw [hnone, List.filter_nil]
        · rw [hnone] at hmem
          cases hmem
  | release name => exact h.filter _
  | set hset =>
    obtain ⟨-, rfl⟩ := h.set?_eq_some.mp hset
    exact ⟨h.nodup, h.alone⟩
  | exclusive hexclusive =>
    obtain ⟨-, rfl⟩ := exclusive_eq_some.mp hexclusive
    exact ⟨h.nodup, h.alone⟩

/-- **Every lock is sound** that was free in the beginning. -/
theorem sound_of_free (h : Relation.ReflTransGen Step (free value) l) : l.Sound := by
  induction h with
  | refl => exact sound_free value
  | tail _ hstep ih => exact ih.step hstep

/-- A step leaves the value alone while somebody reads it. -/
theorem Sound.value_eq_of_step (h : l.Sound) (hstep : l.Step l')
    (hread : (name, Access.read) ∈ l.guards) : l'.value = l.value := by
  cases hstep with
  | acquire hacquire =>
    obtain ⟨-, rfl⟩ := acquire_eq_some.mp hacquire
    rfl
  | release name => rfl
  | set hset =>
    rw [(h.set?_eq_some.mp hset).1] at hread
    cases List.mem_singleton.mp hread
  | exclusive hexclusive =>
    rw [(exclusive_eq_some.mp hexclusive).1] at hread
    cases hread

/-- **A reader sees one value** for as long as the reader holds the lock. -/
theorem Sound.value_eq_of_run (h : l.Sound)
    (hrun : Relation.ReflTransGen (fun s s' => Step s s' ∧ (name, Access.read) ∈ s.guards) l l') :
    l'.Sound ∧ l'.value = l.value := by
  induction hrun with
  | refl => exact ⟨h, rfl⟩
  | tail _ hstep ih =>
    exact ⟨ih.1.step hstep.1, (ih.1.value_eq_of_step hstep.1 hstep.2).trans ih.2⟩

end Lock

end WireForm.Sync
